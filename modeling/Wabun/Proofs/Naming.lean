import Wabun.Proofs.Placement

/-!
What phrases can mean that need not come from any text. The grammar does not count here: a
group may have any parts in any order. Still a phrase means a program whose names are words
that the language does not keep for itself, or lowering tells why it means none. Every name
is checked where it is taken from its leaf, so it holds of a construct if it holds of what is
nested in it. A construct that is recognized by its parts finds each of them in its place.
-/

namespace Wabun

/-- The fault says that a part is missing of those by which its construct is recognized, or
that no operator is found for its symbol. -/
def MeaningFault.isLookup : MeaningFault → Bool
  | shape .call _ _ | shape .binary _ _ | unknownOperator _ => true
  | _ => false

theorem head?_toList_append {first : String} {c : Char} (h : first.toList.head? = some c)
    (rest : String) : (first ++ rest).toList.head? = some c := by
  rw [String.toList_append, List.head?_append, h]
  rfl

/-- No other fault reads like that of an unknown operator: its message begins with another
letter. -/
theorem MeaningFault.message_ne_unknownOperator {fault : MeaningFault}
    (h : fault.isLookup = false) (symbol : String) :
    fault.message ≠ s!"unknown operator '{symbol}'" := by
  have hfirst : ∃ c, c ≠ 'u' ∧ fault.message.toList.head? = some c := by
    cases fault with
    | shape construct expected found =>
        exact ⟨'m', by decide, head?_toList_append (head?_toList_append (by decide) _) _⟩
    | notAName role found =>
        exact ⟨'e', by decide, head?_toList_append (head?_toList_append
          (head?_toList_append (by decide) _) _) _⟩
    | staticPath path =>
        exact ⟨'s', by decide, head?_toList_append (head?_toList_append (by decide) _) _⟩
    | caughtNames count => exact ⟨'c', by decide, head?_toList_append (by decide) _⟩
    | strayCase => exact ⟨'\'', by decide, by decide⟩
    | alternativeShape found => exact ⟨'m', by decide, head?_toList_append (by decide) _⟩
    | declarationMarker => exact ⟨'v', by decide, by decide⟩
    | notNames | notABlock | notCases | noExpression => exact ⟨'e', by decide, by decide⟩
    | malformedCase | caseBody => exact ⟨'m', by decide, by decide⟩
    | caseHead => exact ⟨'p', by decide, by decide⟩
    | bracketed count | manyExpressions count =>
        exact ⟨'e', by decide, head?_toList_append (by decide) _⟩
    | unknownOperator other => cases h
  intro hsame
  obtain ⟨c, hne, hhead⟩ := hfirst
  have hunknown : (s!"unknown operator '{symbol}'").toList.head? = some 'u' :=
    head?_toList_append (head?_toList_append (by decide) _) _
  rw [hsame, hunknown] at hhead
  exact hne (Option.some.inj hhead).symm

namespace Node

/-- The names that a node has itself. The class and the name of a static method are one path. -/
def ownNames : Node → List String
  | .function name params _ => name :: params
  | .variableDeclaration _ name _ | .exporting name _ | .identifier name => [name]
  | .classDeclaration name parent _ => name :: parent.toList
  | .enumDeclaration name variants => name :: variants
  | .create className => [className]
  | .staticMethod className name _ => [className ++ "." ++ name]
  | .attempt _ caught _ => [caught]
  | .call callee _ => [callee]
  | .inspectType _ typeName => [typeName]
  | _ => []

/-- The node is no program, its names are words that can be names, and the module that it
imports is named so or by one of the texts. -/
def IsWellNamed (texts : String → Prop) : Node → Prop
  | .program _ => False
  | .importing moduleName => Word.isName moduleName = true ∨ texts moduleName
  | node => ∀ name ∈ node.ownNames, Word.isName name = true

theorem IsWellNamed.all {texts : String → Prop} {node : Node} (h : node.IsWellNamed texts) :
    (∀ others, node ≠ .program others) ∧
    (∀ name ∈ node.ownNames, Word.isName name = true) ∧
    ∀ moduleName, node = .importing moduleName →
      Word.isName moduleName = true ∨ texts moduleName := by
  refine ⟨?_, ?_, ?_⟩
  · rintro others rfl
    exact h
  · cases node with
    | program others => exact h.elim
    | importing moduleName => exact List.forall_mem_nil _
    | _ => exact h
  · rintro moduleName rfl
    exact h

/-- All parts of a node are well named. -/
def IsSound (texts : String → Prop) (node : Node) : Prop :=
  ∀ inner : Node, inner.Within node → inner.IsWellNamed texts

def AllSound (texts : String → Prop) (body : List Node) : Prop :=
  ∀ node ∈ body, node.IsSound texts

theorem IsSound.of_parts {texts : String → Prop} {node : Node} (hnode : node.IsWellNamed texts)
    (hslots : ∀ slot ∈ node.slots, slot.IsSound texts)
    (hbodies : ∀ body ∈ node.bodies, AllSound texts body) : node.IsSound texts := by
  intro inner hinner
  cases hinner with
  | refl => exact hnode
  | slot hpart hslot => exact hslots _ hslot inner hpart
  | body hpart hmem hbody => exact hbodies _ hbody _ hmem inner hpart

end Node

/-- The pattern, the condition and the body of a case are sound. -/
structure PatternCase.IsSound (texts : String → Prop) (candidate : PatternCase) : Prop where
  slots : ∀ slot ∈ candidate.slots, slot.IsSound texts
  body : Node.AllSound texts candidate.body

namespace Meaning

variable {α β : Type} {post : α → Prop}

/-- The meaning, if there is one, is as required, and if there is none no part is missing. -/
def Gives (post : α → Prop) : Meaning α → Prop
  | .ok value => post value
  | .error fault => fault.isLookup = false

namespace Gives

theorem pure {value : α} (h : post value) : Gives post (Pure.pure value : Meaning α) := h

theorem error {fault : MeaningFault} (h : fault.isLookup = false) :
    Gives post (.error fault : Meaning α) := h

theorem bind {part : Meaning β} {next : β → Meaning α} {middle : β → Prop}
    (hpart : Gives middle part) (hnext : ∀ value, middle value → Gives post (next value)) :
    Gives post (part >>= next) := by
  cases part with
  | error fault => exact hpart
  | ok value => exact hnext value hpart

theorem mapM (post : α → Prop) {action : β → Meaning α} {items : List β}
    (h : ∀ item ∈ items, Gives post (action item)) :
    Gives (fun results => ∀ result ∈ results, post result) (items.mapM action) := by
  induction items with
  | nil => exact pure fun _ hmem => absurd hmem List.not_mem_nil
  | cons item rest ih =>
      rw [List.forall_mem_cons] at h
      rw [List.mapM_cons]
      refine bind h.1 fun first hfirst => bind (ih h.2) fun others hothers => pure ?_
      exact List.forall_mem_cons.mpr ⟨hfirst, hothers⟩

end Gives

end Meaning

open Meaning (Gives)

namespace Phrase

/-- The texts in a phrase are among these. -/
def TextsAmong (texts : String → Prop) (phrase : Phrase) : Prop :=
  ∀ value, .text value ∈ phrase.leaves → texts value

variable {texts : String → Prop} {phrase : Phrase} {parts items : List Phrase}

theorem TextsAmong.part (h : (group parts).TextsAmong texts) :
    ∀ part ∈ parts, part.TextsAmong texts := by
  intro part hpart value hvalue
  apply h
  rw [leaves_group]
  exact List.mem_flatMap.mpr ⟨part, hpart, hvalue⟩

/-- What stands between two symbols are parts of the group. -/
theorem mem_of_enclosed? {opening closing : Symbol}
    (h : phrase.enclosed? opening closing = some items) :
    ∃ parts, phrase = .group parts ∧ ∀ item ∈ items, item ∈ parts := by
  cases phrase with
  | leaf atom => cases h
  | group parts =>
      refine ⟨parts, rfl, fun item hitem => ?_⟩
      cases parts with
      | nil => cases h
      | cons first rest =>
          unfold enclosed? at h
          dsimp only at h
          split at h
          · split at h
            · cases h
              exact List.mem_cons_of_mem first ((List.dropLast_sublist rest).subset hitem)
            · cases h
          · cases h

theorem TextsAmong.enclosed (h : phrase.TextsAmong texts) {opening closing : Symbol}
    (henclosed : phrase.enclosed? opening closing = some items) :
    ∀ item ∈ items, item.TextsAmong texts := by
  obtain ⟨parts, rfl, hparts⟩ := mem_of_enclosed? henclosed
  exact fun item hitem => h.part item (hparts item hitem)

theorem TextsAmong.bracketed (h : phrase.TextsAmong texts)
    (hbracketed : phrase.bracketed? = some items) : ∀ item ∈ items, item.TextsAmong texts := by
  obtain ⟨all, henclosed, rfl⟩ := Option.map_eq_some_iff.mp hbracketed
  exact fun item hitem => h.enclosed henclosed item (List.mem_of_mem_filter hitem)

theorem eq_word_of_word? {text : String} (h : phrase.word? = some text) :
    phrase = .word text := by
  unfold word? at h
  split at h
  · cases h
    rfl
  · cases h

theorem gives_name (role : String) (phrase : Phrase) :
    Gives (fun name => Word.isName name = true) (phrase.name role) := by
  unfold name
  split
  · split
    · assumption
    · exact .error rfl
  · exact .error rfl

theorem gives_names (phrase : Phrase) :
    Gives (fun names => ∀ name ∈ names, Word.isName name = true) phrase.names := by
  unfold names
  split
  · exact .mapM _ fun part _ => gives_name "a name" part
  · exact .error rfl

/-- What passes from groups to their parts holds of all the parts of cases. -/
theorem gives_caseParts {inherited : Phrase → Prop}
    (hinherited : ∀ parts, inherited (.group parts) → ∀ part ∈ parts, inherited part)
    (h : inherited phrase) :
    Gives (fun cases => ∀ parts ∈ cases, ∀ part ∈ parts, inherited part) phrase.caseParts := by
  have hparts {inner : Phrase} (hinner : inherited inner) {parts : List Phrase}
      (hsome : inner.parts? = some parts) : ∀ part ∈ parts, inherited part := by
    cases inner with
    | leaf atom => cases hsome
    | group all =>
        cases hsome
        exact hinherited _ hinner
  unfold caseParts
  split
  · exact .error rfl
  · next groups hgroups =>
      obtain ⟨all, rfl, hall⟩ := mem_of_enclosed? hgroups
      refine .bind (.mapM (fun run => ∀ parts ∈ run, ∀ part ∈ parts, inherited part)
        fun group hgroup => ?_) fun runs hruns => .pure fun parts hmem => ?_
      · split
        · exact .error rfl
        · next cases hsome =>
            refine .mapM _ fun case hcase => ?_
            have hcase := hparts (hinherited all h group (hall group hgroup)) hsome case hcase
            split
            · exact .error rfl
            · next parts hsome => exact .pure (hparts hcase hsome)
      · obtain ⟨run, hrun, hmem⟩ := List.mem_flatten.mp hmem
        exact hruns run hrun parts hmem

end Phrase

namespace Construct

variable {parts : List Phrase}

/-- Where a construct is recognized, one that has precedence over it is not. -/
theorem rest_of_ite {condition : Prop} [Decidable condition] {first other : Construct}
    {rest : Option Construct} (h : (if condition then some first else rest) = some other)
    (hne : first ≠ other) : rest = some other := by
  split at h
  · exact absurd (Option.some.inj h) hne
  · exact h

theorem isCall_of_call (h : of? parts = some .call) : isCall parts = true := by
  unfold of? at h
  -- Thirteen conditions have precedence over that of a call, and three come behind it.
  iterate 13 replace h := rest_of_ite h (by simp)
  split at h
  · assumption
  · iterate 3 replace h := rest_of_ite h (by simp)
    simp at h

theorem isBinary_of_binary (h : of? parts = some .binary) : isBinary parts = true := by
  unfold of? at h
  iterate 17 replace h := rest_of_ite h (by simp)
  simpa using h

/-- A call is recognized by its three parts, and has a name to call. -/
theorem exists_of_call (h : of? parts = some .call) :
    ∃ argument name, parts = [argument, .keyword .object, .word name] ∧
      Word.isName name = true := by
  have hcall := isCall_of_call h
  unfold isCall at hcall
  split at hcall
  · next argument object callee =>
      obtain ⟨hobject, hcallee⟩ := Bool.and_eq_true_iff.mp hcall
      obtain ⟨name, hword, hname⟩ := (Option.any_eq_true _ _).mp hcallee
      refine ⟨argument, name, ?_, hname⟩
      rw [Phrase.eq_word_of_word? hword, Phrase.eq_word_of_word? (beq_iff_eq.mp hobject)]
      rfl
  · cases hcall

/-- An operator is recognized by its symbol, which stands between two parts. -/
theorem exists_of_binary (h : of? parts = some .binary) :
    ∃ left operator right, parts = [left, .word (Operator.symbol operator), right] := by
  have hbinary := isBinary_of_binary h
  unfold isBinary at hbinary
  split at hbinary
  · next left symbol right =>
      obtain ⟨text, hword, htext⟩ := (Option.any_eq_true _ _).mp hbinary
      obtain ⟨operator, rfl⟩ := Operator.exists_of_isOperator htext
      rw [Phrase.eq_word_of_word? hword]
      exact ⟨left, operator, right, rfl⟩
  · cases hbinary

end Construct

/-- The nodes of a run are those of its items. -/
theorem Lowered.flattenAll_eq_flatMap (items : List Lowered) :
    flattenAll items = items.flatMap flatten := by
  induction items with
  | nil => rw [flattenAll, List.flatMap_nil]
  | cons item rest ih => rw [flattenAll, ih, List.flatMap_cons]

namespace Lowering

variable {lowering : Lowering} {texts : String → Prop} {parts : List Phrase}

/-- What phrases with these texts mean is sound, and no part of theirs is missing. -/
structure IsSound (texts : String → Prop) (lowering : Lowering) : Prop where
  transform : ∀ phrase : Phrase, phrase.TextsAmong texts →
    Gives (fun lowered => ∀ result ∈ lowered, Node.AllSound texts result.flatten)
      (lowering.transform phrase)
  expression : ∀ phrase : Phrase, phrase.TextsAmong texts →
    Gives (Node.IsSound texts) (lowering.expression phrase)

namespace IsSound

section Parts

variable {phrase : Phrase} (h : lowering.IsSound texts) (hphrase : phrase.TextsAmong texts)
include h hphrase

theorem statements : Gives (Node.AllSound texts) (lowering.statements phrase) := by
  refine .bind (h.transform phrase hphrase) fun lowered hlowered => ?_
  cases lowered with
  | none => exact .pure fun _ hmem => absurd hmem List.not_mem_nil
  | some result => exact .pure (hlowered result rfl)

theorem block : Gives (Node.AllSound texts) (lowering.block phrase) := by
  unfold Lowering.block
  split
  · next parts hparts =>
      refine .bind (.mapM _ fun part hpart => h.statements (hphrase.enclosed hparts part hpart))
        fun runs hruns => .pure fun node hnode => ?_
      obtain ⟨run, hrun, hnode⟩ := List.mem_flatten.mp hnode
      exact hruns run hrun node hnode
  · exact .error rfl

theorem arguments : Gives (Node.AllSound texts) (lowering.arguments phrase) := by
  unfold Lowering.arguments
  split
  · next parts hparts =>
      exact .mapM _ fun part hpart => h.expression part (hphrase.bracketed hparts part hpart)
  · refine .bind (h.expression phrase hphrase) fun node hnode => .pure ?_
    exact List.forall_mem_singleton.mpr hnode

theorem alternate : Gives (Node.AllSound texts) (lowering.alternate phrase) := by
  unfold Lowering.alternate
  split
  · exact h.block hphrase
  · exact h.statements hphrase

/-- A node with one place for an expression. -/
theorem valued (make : Node → Node) (hnode : ∀ value, (make value).IsWellNamed texts)
    (hslots : ∀ value, (make value).slots = [value]) (hbodies : ∀ value, (make value).bodies = []) :
    Gives (Node.IsSound texts) (do return make (← lowering.expression phrase)) := by
  refine .bind (h.expression phrase hphrase) fun value hvalue => .pure ?_
  refine .of_parts (hnode value) ?_ ?_
  · rw [hslots]
    exact List.forall_mem_singleton.mpr hvalue
  · rw [hbodies]
    exact List.forall_mem_nil _

end Parts

section Constructs

variable (h : lowering.IsSound texts) (hparts : ∀ part ∈ parts, part.TextsAmong texts)

include hparts in
theorem importing : Gives (Node.IsSound texts) (Lowering.importing parts) := by
  unfold Lowering.importing
  split
  · next first value =>
      have htext : texts value := hparts (.leaf (.text value)) (by simp) value (by simp)
      exact .pure (.of_parts (.inr htext) (List.forall_mem_nil _) (List.forall_mem_nil _))
  · refine .bind (Phrase.gives_name _ _) fun name hname => .pure ?_
    exact .of_parts (.inl hname) (List.forall_mem_nil _) (List.forall_mem_nil _)
  · exact .error rfl

theorem enumDeclaration : Gives (Node.IsSound texts) (Lowering.enumDeclaration parts) := by
  unfold Lowering.enumDeclaration
  split
  · refine .bind (Phrase.gives_name _ _) fun name hname => ?_
    refine .bind (Phrase.gives_names _) fun values hvalues => .pure ?_
    refine .of_parts ?_ (List.forall_mem_nil _) (List.forall_mem_nil _)
    exact List.forall_mem_cons.mpr ⟨hname, hvalues⟩
  · exact .error rfl

theorem create : Gives (Node.IsSound texts) (Lowering.create parts) := by
  unfold Lowering.create
  split
  · refine .bind (Phrase.gives_name _ _) fun name hname => .pure ?_
    refine .of_parts ?_ (List.forall_mem_nil _) (List.forall_mem_nil _)
    exact List.forall_mem_singleton.mpr hname
  · exact .error rfl

include h hparts

theorem exporting : Gives (Node.IsSound texts) (lowering.exporting parts) := by
  unfold Lowering.exporting
  split
  · refine .bind (Phrase.gives_name _ _) fun name hname => ?_
    exact h.valued (hparts _ (by simp)) (.exporting name)
      (fun _ => List.forall_mem_singleton.mpr hname) (fun _ => rfl) fun _ => rfl
  · exact .error rfl

theorem function : Gives (Node.IsSound texts) (lowering.function parts) := by
  unfold Lowering.function
  split
  · refine .bind (Phrase.gives_name _ _) fun name hname => ?_
    refine .bind (Phrase.gives_names _) fun params hparams => ?_
    refine .bind (h.block (hparts _ (by simp))) fun body hbody => .pure ?_
    refine .of_parts (List.forall_mem_cons.mpr ⟨hname, hparams⟩) (List.forall_mem_nil _) ?_
    exact List.forall_mem_singleton.mpr hbody
  · exact .error rfl

theorem classDeclaration : Gives (Node.IsSound texts) (lowering.classDeclaration parts) := by
  unfold Lowering.classDeclaration
  split
  · split
    · refine .bind (Phrase.gives_name _ _) fun parent hparent => ?_
      refine .bind (Phrase.gives_name _ _) fun name hname => ?_
      refine .bind (h.block (hparts _ (by simp))) fun body hbody => .pure ?_
      refine .of_parts ?_ (List.forall_mem_nil _) (List.forall_mem_singleton.mpr hbody)
      exact List.forall_mem_cons.mpr ⟨hname, List.forall_mem_singleton.mpr hparent⟩
    · exact .error rfl
  · split
    · refine .bind (Phrase.gives_name _ _) fun name hname => ?_
      refine .bind (h.block (hparts _ (by simp))) fun body hbody => .pure ?_
      refine .of_parts ?_ (List.forall_mem_nil _) (List.forall_mem_singleton.mpr hbody)
      exact List.forall_mem_singleton.mpr hname
    · exact .error rfl

/-- The two halves of the path are put together again with a dot. -/
theorem staticMethod : Gives (Node.IsSound texts) (lowering.staticMethod parts) := by
  unfold Lowering.staticMethod
  split
  · refine .bind (Phrase.gives_name _ _) fun path hpath => ?_
    split
    · next className method hsplit =>
        refine .bind (h.block (hparts _ (by simp))) fun body hbody => .pure ?_
        refine .of_parts ?_ (List.forall_mem_nil _) (List.forall_mem_singleton.mpr hbody)
        refine List.forall_mem_singleton.mpr ?_
        rw [Path.append_of_splitLast? hsplit]
        exact hpath
    · exact .error rfl
  · exact .error rfl

theorem attempt : Gives (Node.IsSound texts) (lowering.attempt parts) := by
  unfold Lowering.attempt
  split
  · refine .bind (Phrase.gives_names _) fun names hnames => ?_
    split
    · refine .bind (h.block (hparts _ (by simp))) fun body hbody => ?_
      refine .bind (h.block (hparts _ (by simp))) fun handler hhandler => .pure ?_
      refine .of_parts hnames (List.forall_mem_nil _) ?_
      exact List.forall_mem_cons.mpr ⟨hbody, List.forall_mem_singleton.mpr hhandler⟩
    · exact .error rfl
  · exact .error rfl

theorem patternBody {pattern : Option Node} (hpattern : ∀ node ∈ pattern, node.IsSound texts) :
    Gives (PatternCase.IsSound texts) (lowering.patternBody pattern parts) := by
  unfold Lowering.patternBody
  split
  · refine .bind (h.block (hparts _ (by simp))) fun body hbody => .pure ⟨?_, hbody⟩
    simpa [PatternCase.slots, PatternCase.pattern, PatternCase.guard] using hpattern
  · split
    · refine .bind (h.expression _ (hparts _ (by simp))) fun guard hguard => ?_
      refine .bind (h.block (hparts _ (by simp))) fun body hbody => .pure ⟨?_, hbody⟩
      refine List.forall_mem_append.mpr ⟨?_, List.forall_mem_singleton.mpr hguard⟩
      simpa [PatternCase.pattern] using hpattern
    · exact .error rfl
  · exact .error rfl

theorem patternCase : Gives (PatternCase.IsSound texts) (lowering.patternCase parts) := by
  unfold Lowering.patternCase
  split
  · exact .error rfl
  · next first rest =>
      rw [List.forall_mem_cons] at hparts
      split
      · exact h.patternBody hparts.2 fun _ hnone => absurd hnone (Option.not_mem_none _)
      · split
        · exact .error rfl
        · next marker rest =>
            split
            · refine .bind (h.expression first hparts.1) fun pattern hpattern => ?_
              refine h.patternBody (List.forall_mem_cons.mp hparts.2).2 fun node hnode => ?_
              obtain rfl := Option.mem_some_iff.mp hnode
              exact hpattern
            · exact .error rfl

theorem distinguish : Gives (Node.IsSound texts) (lowering.distinguish parts) := by
  unfold Lowering.distinguish
  split
  · refine .bind (Phrase.gives_caseParts (fun _ => Phrase.TextsAmong.part) (hparts _ (by simp)))
      fun groups hgroups => ?_
    refine .bind (.mapM _ fun group hgroup => h.patternCase (hgroups group hgroup))
      fun cases hcases => ?_
    refine .bind (h.expression _ (hparts _ (by simp))) fun subject hsubject => .pure ?_
    refine .of_parts (List.forall_mem_nil _) ?_ ?_
    · refine List.forall_mem_cons.mpr ⟨hsubject, fun slot hslot => ?_⟩
      obtain ⟨candidate, hcandidate, hslot⟩ := List.mem_flatMap.mp hslot
      exact (hcases candidate hcandidate).slots slot hslot
    · intro body hbody
      obtain ⟨candidate, hcandidate, rfl⟩ := List.mem_map.mp hbody
      exact (hcases candidate hcandidate).body
  · exact .error rfl

theorem alternative : Gives (Node.IsSound texts) (lowering.alternative parts) := by
  unfold Lowering.alternative
  split
  · refine .bind (h.expression _ (hparts _ (by simp))) fun condition hcondition => ?_
    refine .bind (h.block (hparts _ (by simp))) fun consequent hconsequent => .pure ?_
    exact .of_parts (List.forall_mem_nil _) (List.forall_mem_singleton.mpr hcondition)
      (List.forall_mem_singleton.mpr hconsequent)
  · split
    · refine .bind (h.alternate (hparts _ (by simp))) fun alternate halternate => ?_
      refine .bind (h.expression _ (hparts _ (by simp))) fun condition hcondition => ?_
      refine .bind (h.block (hparts _ (by simp))) fun consequent hconsequent => .pure ?_
      exact .of_parts (List.forall_mem_nil _) (List.forall_mem_singleton.mpr hcondition)
        (List.forall_mem_cons.mpr ⟨hconsequent, List.forall_mem_singleton.mpr halternate⟩)
    · exact .error rfl
  · exact .error rfl

theorem loop : Gives (Node.IsSound texts) (lowering.loop parts) := by
  unfold Lowering.loop
  split
  · refine .bind (h.expression _ (hparts _ (by simp))) fun condition hcondition => ?_
    refine .bind (h.block (hparts _ (by simp))) fun body hbody => .pure ?_
    exact .of_parts (List.forall_mem_nil _) (List.forall_mem_singleton.mpr hcondition)
      (List.forall_mem_singleton.mpr hbody)
  · exact .error rfl

theorem variableDeclaration :
    Gives (Node.IsSound texts) (lowering.variableDeclaration parts) := by
  unfold Lowering.variableDeclaration
  split
  · next marker name topic value =>
      -- The marker decides on the kind only, and what follows it is the same for both.
      have hdeclared (kind : Declaration) : Gives (Node.IsSound texts) (do
          let name ← name.name "variable name"
          let value ← lowering.expression value
          return .variableDeclaration kind name value) := by
        refine .bind (Phrase.gives_name _ _) fun name hname => ?_
        exact h.valued (hparts _ (by simp)) (.variableDeclaration kind name)
          (fun _ => List.forall_mem_singleton.mpr hname) (fun _ => rfl) fun _ => rfl
      dsimp only
      split
      · exact hdeclared .here
      · split
        · exact hdeclared .nearest
        · exact .error rfl
  · exact .error rfl

theorem giveBack : Gives (Node.IsSound texts) (lowering.giveBack parts) := by
  unfold Lowering.giveBack
  split
  · exact h.valued (hparts _ (by simp)) .giveBack (fun _ => List.forall_mem_nil _)
      (fun _ => rfl) fun _ => rfl
  · exact .error rfl

theorem throwUp : Gives (Node.IsSound texts) (lowering.throwUp parts) := by
  unfold Lowering.throwUp
  split
  · exact h.valued (hparts _ (by simp)) .throwUp (fun _ => List.forall_mem_nil _)
      (fun _ => rfl) fun _ => rfl
  · exact .error rfl

theorem inspectType : Gives (Node.IsSound texts) (lowering.inspectType parts) := by
  unfold Lowering.inspectType
  split
  · refine .bind (h.expression _ (hparts _ (by simp))) fun value hvalue => ?_
    refine .bind (Phrase.gives_name _ _) fun typeName htypeName => .pure ?_
    exact .of_parts (List.forall_mem_singleton.mpr htypeName)
      (List.forall_mem_singleton.mpr hvalue) (List.forall_mem_nil _)
  · exact .error rfl

theorem call (hof : Construct.of? parts = some .call) :
    Gives (Node.IsSound texts) (lowering.call parts) := by
  obtain ⟨argument, name, rfl, _⟩ := Construct.exists_of_call hof
  refine .bind (Phrase.gives_name _ _) fun callee hcallee => ?_
  refine .bind (h.arguments (hparts argument (by simp))) fun args hargs => .pure ?_
  exact .of_parts (List.forall_mem_singleton.mpr hcallee) hargs (List.forall_mem_nil _)

/-- The operator that a group is recognized by is found again. -/
theorem binary (hof : Construct.of? parts = some .binary) :
    Gives (Node.IsSound texts) (lowering.binary parts) := by
  obtain ⟨left, operator, right, rfl⟩ := Construct.exists_of_binary hof
  have hfound : Gives (fun _ => True) (Phrase.word operator.symbol).operator := by
    rw [Phrase.operator_symbol]
    trivial
  refine .bind hfound fun operator _ => ?_
  refine .bind (h.expression left (hparts left (by simp))) fun first hfirst => ?_
  refine .bind (h.expression right (hparts right (by simp))) fun second hsecond => .pure ?_
  exact .of_parts (List.forall_mem_nil _)
    (List.forall_mem_cons.mpr ⟨hfirst, List.forall_mem_singleton.mpr hsecond⟩)
    (List.forall_mem_nil _)

theorem construct {construct : Construct} (hof : Construct.of? parts = some construct) :
    Gives (Node.IsSound texts) (lowering.construct construct parts) := by
  cases construct with
  | importing => exact IsSound.importing hparts
  | exporting => exact h.exporting hparts
  | function => exact h.function hparts
  | classDeclaration => exact h.classDeclaration hparts
  | enumDeclaration => exact IsSound.enumDeclaration
  | create => exact IsSound.create
  | staticMethod => exact h.staticMethod hparts
  | attempt => exact h.attempt hparts
  | distinguish => exact h.distinguish hparts
  | strayCase => exact .error rfl
  | alternative => exact h.alternative hparts
  | loop => exact h.loop hparts
  | variableDeclaration => exact h.variableDeclaration hparts
  | call => exact h.call hparts hof
  | giveBack => exact h.giveBack hparts
  | throwUp => exact h.throwUp hparts
  | inspectType => exact h.inspectType hparts
  | binary => exact h.binary hparts hof

end Constructs

section Steps

variable {phrase : Phrase} (h : lowering.IsSound texts) (hphrase : phrase.TextsAmong texts)

theorem leaf (atom : Atom) : ∀ node ∈ atom.toNode?, node.IsSound texts := by
  intro node hnode
  cases atom with
  | word text =>
      obtain ⟨hname, hsome⟩ := Option.ite_none_right_eq_some.mp hnode
      cases hsome
      exact .of_parts (List.forall_mem_singleton.mpr hname) (List.forall_mem_nil _)
        (List.forall_mem_nil _)
  | text value | number value | truth value =>
      cases hnode
      exact .of_parts (List.forall_mem_nil _) (List.forall_mem_nil _) (List.forall_mem_nil _)

include h hphrase

theorem transformStep :
    Gives (fun lowered => ∀ result ∈ lowered, Node.AllSound texts result.flatten)
      (lowering.transformStep phrase) := by
  cases phrase with
  | leaf atom =>
      refine .pure fun result hresult => ?_
      obtain ⟨node, hnode, rfl⟩ := Option.map_eq_some_iff.mp hresult
      rw [Lowered.flatten]
      exact List.forall_mem_singleton.mpr (leaf atom node hnode)
  | group parts =>
      rw [Lowering.transformStep]
      split
      · next construct hof =>
          refine .bind (h.construct hphrase.part hof) fun node hnode => .pure ?_
          rintro _ ⟨⟩
          rw [Lowered.flatten]
          exact List.forall_mem_singleton.mpr hnode
      · refine .bind (.mapM _ fun part hpart => h.transform part (hphrase.part part hpart))
          fun items hitems => .pure ?_
        rintro _ ⟨⟩ node hnode
        rw [Lowered.flatten, Lowered.flattenAll_eq_flatMap] at hnode
        obtain ⟨result, hresult, hnode⟩ := List.mem_flatMap.mp hnode
        obtain ⟨item, hitem, hsome⟩ := List.mem_filterMap.mp hresult
        exact hitems item hitem result hsome node hnode

theorem expressionStep : Gives (Node.IsSound texts) (lowering.expressionStep phrase) := by
  unfold Lowering.expressionStep
  split
  · next part hbracketed =>
      exact h.expression part (hphrase.bracketed hbracketed part List.mem_cons_self)
  · exact .error rfl
  · refine .bind (h.transformStep hphrase) fun lowered hlowered => ?_
    split
    · exact .error rfl
    · exact .error rfl
    · next node hsingle =>
        obtain ⟨result, hresult, hflatten⟩ := Option.map_eq_some_iff.mp hsingle
        exact .pure (hlowered result hresult node (by simp [hflatten]))
    · exact .error rfl

end Steps

/-- What phrases of every height mean is sound. -/
theorem ofHeight (texts : String → Prop) (bound : Nat) :
    (Lowering.ofHeight bound).IsSound texts := by
  induction bound with
  | zero =>
      constructor
      · exact fun _ _ => .pure fun _ hnone => absurd hnone (Option.not_mem_none _)
      · exact fun _ _ => .error rfl
  | succ bound ih =>
      constructor
      · exact fun _ hphrase => ih.transformStep hphrase
      · exact fun _ hphrase => ih.expressionStep hphrase

end IsSound

end Lowering

/-- Every phrase, whatever its parts, either means a program or has a fault of lowering without
a place. The program has no other program inside, and every name in it is a word that the
language does not keep for itself; only a module may also be named by a text of the phrase. A
group that is recognized as a call or as an operator has all that is looked up in it: three
parts, and among them the name to call or a symbol with an operator. No phrase has the fault
of an unknown operator, because there is one for every word that is kept for operators. -/
theorem lowering_gives_sound_programs :
    (∀ phrase : Phrase,
      (∃ fault : MeaningFault, fault.isLookup = false ∧
        Node.ofPhrase phrase = .error ⟨.meaning, fault.message, none⟩) ∨
      ∃ statements, Node.ofPhrase phrase = .ok (.program statements) ∧
        ∀ statement ∈ statements, ∀ inner : Node, inner.Within statement →
          (∀ others, inner ≠ .program others) ∧
          (∀ name ∈ inner.ownNames, Word.isName name = true) ∧
          ∀ moduleName, inner = .importing moduleName →
            Word.isName moduleName = true ∨ .text moduleName ∈ phrase.leaves) ∧
    (∀ (phrase : Phrase) (symbol : String),
      Node.ofPhrase phrase ≠ .error ⟨.meaning, s!"unknown operator '{symbol}'", none⟩) ∧
    (∀ parts, Construct.of? parts = some .call →
      ∃ argument name, parts = [argument, .keyword .object, .word name] ∧
        Word.isName name = true) ∧
    (∀ parts, Construct.of? parts = some .binary →
      ∃ left operator right, parts = [left, .word (Operator.symbol operator), right] ∧
        Operator.ofSymbol? operator.symbol = some operator) ∧
    ∀ word, (Operator.ofSymbol? word).isSome = Word.isOperator word := by
  have hmeaning (phrase : Phrase) := (Lowering.IsSound.ofHeight
    (fun text => .text text ∈ phrase.leaves) (phrase.height + 1)).statements fun _ htext => htext
  refine ⟨fun phrase => ?_, fun phrase symbol => ?_, fun parts hof => Construct.exists_of_call hof,
    fun parts hof => ?_, Operator.isSome_ofSymbol?⟩
  · have hgives := hmeaning phrase
    rw [Node.ofPhrase]
    cases hstatements : (Lowering.ofHeight (phrase.height + 1)).statements phrase with
    | error fault =>
        rw [hstatements] at hgives
        exact .inl ⟨fault, hgives, rfl⟩
    | ok statements =>
        rw [hstatements] at hgives
        refine .inr ⟨statements, rfl, fun statement hmem inner hinner => ?_⟩
        exact (hgives statement hmem inner hinner).all
  · have hgives := hmeaning phrase
    rw [Node.ofPhrase]
    cases hstatements : (Lowering.ofHeight (phrase.height + 1)).statements phrase with
    | error fault =>
        rw [hstatements] at hgives
        intro hsame
        exact MeaningFault.message_ne_unknownOperator hgives symbol
          (congrArg Diagnostic.message (Except.error.inj hsame))
    | ok statements =>
        intro hsame
        cases hsame
  · obtain ⟨left, operator, right, hparts⟩ := Construct.exists_of_binary hof
    exact ⟨left, operator, right, hparts, Operator.ofSymbol?_symbol operator⟩

/-- A key word is no name, but a text that spells one can name a module. -/
example :
    Node.ofPhrase (.group [.keyword .importing, .leaf (.text Keyword.classOf.text)]) =
      .ok (.program [.importing "構造"]) := by
  rfl

end Wabun
