import Wabun.Proofs.Bindings

/-!
Reading and writing along the chains of scopes. A name is read from the nearest
scope of the chain that binds it. It is written to the nearest one as well, but
the search for it ends with the first sealed scope, and where it finds nothing
the name is bound in the scope at hand. So a write changes one binding, it is
never made above a sealed scope, and it is seen by those scopes, and only those,
whose chain leads to that binding first.

All this is said of the forests that the operations on scopes can make. In them
every parent is older than its children, so that every chain ends at a root.
-/

namespace Wabun

namespace Forest

/-- The forests that can be made, by operations on scopes that exist. -/
inductive Grown : Forest → Prop
  | empty : Grown .empty
  | root {forest} : Grown forest → Grown (forest.add .root).2
  | child {forest} {ref : ScopeRef} : Grown forest → ref.index < forest.size →
    Grown (forest.add (.childOf ref)).2
  | sealedChild {forest} {ref : ScopeRef} : Grown forest → ref.index < forest.size →
    Grown (forest.add (.sealedChildOf ref)).2
  | define {forest} {ref : ScopeRef} (name : String) (value : Value) : Grown forest →
    ref.index < forest.size → Grown (forest.define ref name value)
  | assign {forest} {ref : ScopeRef} (name : String) (value : Value) : Grown forest →
    ref.index < forest.size → Grown (forest.assign ref name value)
  | markExported {forest} {ref : ScopeRef} (name : String) : Grown forest →
    ref.index < forest.size → Grown (forest.markExported ref name)

/-- The scopes that are met by going from parent to parent, as far as there is one. -/
inductive Ascends (forest : Forest) : ScopeRef → List ScopeRef → Prop
  | root {ref} : (forest.scope ref).parent = none → Ascends forest ref [ref]
  | child {ref parent rest} : (forest.scope ref).parent = some parent →
    Ascends forest parent rest → Ascends forest ref (ref :: rest)

/-- Every parent is older than its children. -/
def ParentsOlder (forest : Forest) : Prop :=
  ∀ ref parent, (forest.scope ref).parent = some parent → parent.index < ref.index

section Chains

variable {forest other : Forest} {ref : ScopeRef}

theorem scope_add_self (forest : Forest) (scope : Scope) :
    (forest.add scope).2.scope (forest.add scope).1 = scope := by
  rw [Forest.scope, add, Array.getD_eq_getD_getElem?, Array.getElem?_push_size]
  rfl

theorem ParentsOlder.add (h : forest.ParentsOlder) {scope : Scope}
    (hscope : ∀ parent, scope.parent = some parent → parent.index < forest.size) :
    (forest.add scope).2.ParentsOlder := by
  intro ref parent hparent
  rcases Nat.lt_trichotomy ref.index forest.size with hold | hnew | hbeyond
  · rw [scope_add hold] at hparent
    exact h ref parent hparent
  · obtain rfl : ref = (forest.add scope).1 := congrArg ScopeRef.mk hnew
    rw [scope_add_self] at hparent
    exact hscope parent hparent
  · rw [scope_eq_root (by rw [size_add]; exact hbeyond)] at hparent
    cases hparent

theorem ParentsOlder.modify (h : forest.ParentsOlder) (target : ScopeRef) {change : Scope → Scope}
    (hchange : ∀ scope, (change scope).parent = scope.parent) :
    (forest.modify target change).ParentsOlder := by
  intro ref parent hparent
  rcases scope_modify_cases forest target ref change with hsame | ⟨_, hchanged⟩
  · rw [hsame] at hparent
    exact h ref parent hparent
  · rw [hchanged, hchange] at hparent
    exact h ref parent hparent

theorem Grown.parentsOlder (h : forest.Grown) : forest.ParentsOlder := by
  induction h with
  | empty =>
      intro ref parent hparent
      rw [scope_eq_root (Nat.zero_le _)] at hparent
      cases hparent
  | root _ ih =>
      refine ih.add fun parent hparent => ?_
      cases hparent
  | child _ hexists ih | sealedChild _ hexists ih =>
      refine ih.add fun parent hparent => ?_
      cases hparent
      exact hexists
  | define _ _ _ _ ih | assign _ _ _ _ ih | markExported _ _ _ ih =>
      exact ih.modify _ fun _ => rfl

theorem chain_of_root (h : (forest.scope ref).parent = none) : forest.chain ref = [ref] := by
  rw [chain, h]

theorem ParentsOlder.chain (hforest : forest.ParentsOlder) {parent : ScopeRef}
    (h : (forest.scope ref).parent = some parent) :
    forest.chain ref = ref :: forest.chain parent := by
  rw [Forest.chain, h]
  dsimp only
  rw [if_pos (hforest ref parent h)]

/-- What is shown of a scope if it holds of its parent is shown of every scope. -/
theorem ParentsOlder.induction (hforest : forest.ParentsOlder) {motive : ScopeRef → Prop}
    (root : ∀ ref, (forest.scope ref).parent = none → motive ref)
    (child : ∀ ref parent, (forest.scope ref).parent = some parent → motive parent → motive ref)
    (ref : ScopeRef) : motive ref := by
  obtain ⟨index⟩ := ref
  induction index using Nat.strongRecOn with
  | ind index ih =>
      cases hparent : (forest.scope ⟨index⟩).parent with
      | none => exact root _ hparent
      | some parent => exact child _ parent hparent (ih parent.index (hforest _ parent hparent))

theorem ParentsOlder.ascends (hforest : forest.ParentsOlder) (ref : ScopeRef) :
    forest.Ascends ref (forest.chain ref) := by
  induction ref using hforest.induction with
  | root ref hparent =>
      rw [chain_of_root hparent]
      exact .root hparent
  | child ref parent hparent ih =>
      rw [hforest.chain hparent]
      exact .child hparent ih

theorem chain_eq_cons (forest : Forest) (ref : ScopeRef) :
    ∃ rest, forest.chain ref = ref :: rest := by
  rw [chain]
  exact ⟨_, rfl⟩

theorem ParentsOlder.index_le (hforest : forest.ParentsOlder) (ref : ScopeRef) :
    ∀ above ∈ forest.chain ref, above.index ≤ ref.index := by
  induction ref using hforest.induction with
  | root ref hparent => simp [chain_of_root hparent]
  | child ref parent hparent ih =>
      have holder := hforest ref parent hparent
      rw [hforest.chain hparent]
      intro above hmem
      rcases List.mem_cons.mp hmem with rfl | hmem
      · exact Nat.le_refl _
      · have hle := ih above hmem
        omega

theorem ParentsOlder.nodup_chain (hforest : forest.ParentsOlder) (ref : ScopeRef) :
    (forest.chain ref).Nodup := by
  induction ref using hforest.induction with
  | root ref hparent => simp [chain_of_root hparent]
  | child ref parent hparent ih =>
      have holder := hforest ref parent hparent
      rw [hforest.chain hparent]
      refine List.nodup_cons.mpr ⟨fun hmem => ?_, ih⟩
      have hle := hforest.index_le parent ref hmem
      omega

/-- Chains are made by the parents alone. -/
theorem chain_eq_of_parents (hsame : ∀ ref, (other.scope ref).parent = (forest.scope ref).parent)
    (ref : ScopeRef) : other.chain ref = forest.chain ref := by
  obtain ⟨index⟩ := ref
  induction index using Nat.strongRecOn with
  | ind index ih =>
      rw [chain, chain, hsame]
      cases (forest.scope ⟨index⟩).parent with
      | none => rfl
      | some parent =>
          dsimp only
          split
          · next holder => rw [ih parent.index holder]
          · rfl

end Chains

/-- The nearest scope of a chain that binds the name. -/
def Resolves (forest : Forest) (ref : ScopeRef) (name : String) (holder : ScopeRef) : Prop :=
  ∃ below above, forest.chain ref = below ++ holder :: above ∧
    (∀ scope ∈ below, forest.binding? scope name = none) ∧
    (forest.binding? holder name).isSome = true

/-- The nearest scope of a chain that binds the name, and below it no scope is sealed. -/
def Owns (forest : Forest) (ref : ScopeRef) (name : String) (owner : ScopeRef) : Prop :=
  ∃ below above, forest.chain ref = below ++ owner :: above ∧
    (∀ scope ∈ below, forest.binding? scope name = none ∧
      (forest.scope scope).isSealed = false) ∧
    (forest.binding? owner name).isSome = true

/-- The scope that a name is written to from another one. -/
def IsTarget (forest : Forest) (ref : ScopeRef) (name : String) (target : ScopeRef) : Prop :=
  forest.Owns ref name target ∨ (∀ owner, ¬ forest.Owns ref name owner) ∧ target = ref

/-- The scope is above a sealed one on the chain. -/
def BeyondSeal (forest : Forest) (ref scope : ScopeRef) : Prop :=
  ∃ below border above, forest.chain ref = below ++ border :: above ∧
    (forest.scope border).isSealed = true ∧ scope ∈ above

/-- The forests differ in what one scope binds to one name. -/
structure DiffersAt (before after : Forest) (target : ScopeRef) (name : String) (value : Value) :
    Prop where
  bound : after.binding? target name = some value
  binding? : ∀ scope key, ¬ (scope = target ∧ key = name) →
    after.binding? scope key = before.binding? scope key
  isExported : ∀ scope key, after.isExported scope key = before.isExported scope key
  parent : ∀ scope, (after.scope scope).parent = (before.scope scope).parent
  isSealed : ∀ scope, (after.scope scope).isSealed = (before.scope scope).isSealed
  size : after.size = before.size

section Search

variable {forest : Forest} {name : String}

theorem get?_eq_findSome? (forest : Forest) (ref : ScopeRef) (name : String) :
    forest.get? ref name = (forest.chain ref).findSome? (forest.binding? · name) := rfl

/-- The search for an owner in the scopes of a chain. -/
theorem split_of_find? {scopes : List ScopeRef} {owner : ScopeRef}
    (h : (forest.upToSealed scopes).find? (fun ref => (forest.scope ref).vars.contains name) =
      some owner) :
    ∃ below above, scopes = below ++ owner :: above ∧
      (∀ scope ∈ below, forest.binding? scope name = none ∧
        (forest.scope scope).isSealed = false) ∧
      (forest.binding? owner name).isSome = true := by
  induction scopes with
  | nil => cases h
  | cons ref rest ih =>
      rw [upToSealed] at h
      by_cases hbound : (forest.scope ref).vars.contains name = true
      · have howner : ref = owner := by
          split at h
          · simpa [hbound] using h
          · simpa [hbound] using h
        subst howner
        exact ⟨[], rest, rfl, fun _ hmem => absurd hmem List.not_mem_nil, hbound⟩
      · have hunbound : forest.binding? ref name = none := by
          simpa [Table.contains, binding?] using hbound
        split at h
        · simp [hbound] at h
        · next hopen =>
            rw [List.find?_cons_of_neg
              (p := fun ref => (forest.scope ref).vars.contains name) hbound] at h
            obtain ⟨below, above, rfl, hbelow, howner⟩ := ih h
            refine ⟨ref :: below, above, rfl, ?_, howner⟩
            exact List.forall_mem_cons.mpr ⟨⟨hunbound, by simpa using hopen⟩, hbelow⟩

theorem find?_of_split {below above : List ScopeRef} {owner : ScopeRef}
    (hbelow : ∀ scope ∈ below, forest.binding? scope name = none ∧
      (forest.scope scope).isSealed = false)
    (howner : (forest.binding? owner name).isSome = true) :
    (forest.upToSealed (below ++ owner :: above)).find?
      (fun ref => (forest.scope ref).vars.contains name) = some owner := by
  induction below with
  | nil =>
      have hbound : (forest.scope owner).vars.contains name = true := howner
      rw [List.nil_append, upToSealed]
      split
      · exact List.find?_cons_of_pos hbound
      · exact List.find?_cons_of_pos hbound
  | cons ref rest ih =>
      obtain ⟨⟨hunbound, hopen⟩, hrest⟩ := List.forall_mem_cons.mp hbelow
      have hskipped : ¬ (forest.scope ref).vars.contains name = true := by
        rw [Table.contains, show (forest.scope ref).vars.get? name = none from hunbound]
        exact Bool.false_ne_true
      rw [List.cons_append, upToSealed, hopen, if_neg Bool.false_ne_true,
        List.find?_cons_of_neg (p := fun ref => (forest.scope ref).vars.contains name) hskipped]
      exact ih hrest

theorem owner?_eq_some_iff {ref owner : ScopeRef} :
    forest.owner? ref name = some owner ↔ forest.Owns ref name owner := by
  constructor
  · exact split_of_find?
  · rintro ⟨below, above, hchain, hbelow, howner⟩
    rw [owner?, hchain]
    exact find?_of_split hbelow howner

theorem isTarget_owner? (forest : Forest) (ref : ScopeRef) (name : String) :
    forest.IsTarget ref name ((forest.owner? ref name).getD ref) := by
  cases howner : forest.owner? ref name with
  | some owner => exact .inl (owner?_eq_some_iff.mp howner)
  | none =>
      refine .inr ⟨fun owner howns => ?_, rfl⟩
      rw [← owner?_eq_some_iff, howner] at howns
      cases howns

theorem IsTarget.index_lt {ref target : ScopeRef} (h : forest.IsTarget ref name target)
    (href : ref.index < forest.size) : target.index < forest.size := by
  rcases h with ⟨_, _, _, _, hbound⟩ | ⟨_, rfl⟩
  · obtain ⟨value, hvalue⟩ := Option.isSome_iff_exists.mp hbound
    exact index_lt_of_binding? hvalue
  · exact href

/-- A target stands at the first sealed scope at the latest. -/
theorem IsTarget.not_beyondSeal (hforest : forest.ParentsOlder) {ref target : ScopeRef}
    (h : forest.IsTarget ref name target) : ¬ forest.BeyondSeal ref target := by
  rintro ⟨below, border, above, hchain, hsealed, hmem⟩
  have hnodup := hforest.nodup_chain ref
  have hlater : target ∉ below ++ [border] := by
    rw [hchain, List.append_cons, List.nodup_append] at hnodup
    exact fun hearly => hnodup.2.2 target hearly target hmem rfl
  apply hlater
  rcases h with ⟨under, upper, hsplit, hunder, _⟩ | ⟨_, rfl⟩
  · rw [hchain] at hsplit
    rcases List.append_eq_append_iff.mp hsplit with ⟨middle, rfl, hmiddle⟩ | ⟨middle, rfl, hmiddle⟩
    · cases middle with
      | nil =>
          obtain ⟨rfl, _⟩ := List.cons.inj hmiddle
          simp
      | cons first rest =>
          -- The sealed scope would be among those that the search goes past.
          obtain ⟨rfl, _⟩ := List.cons.inj hmiddle
          have hopen := (hunder border (by simp)).2
          rw [hsealed] at hopen
          cases hopen
    · cases middle with
      | nil =>
          obtain ⟨rfl, _⟩ := List.cons.inj hmiddle
          simp
      | cons first rest =>
          obtain ⟨rfl, _⟩ := List.cons.inj hmiddle
          simp
  · obtain ⟨rest, hrest⟩ := forest.chain_eq_cons target
    rw [hchain] at hrest
    cases below with
    | nil =>
        obtain ⟨rfl, _⟩ := List.cons.inj hrest
        simp
    | cons first others =>
        obtain ⟨rfl, _⟩ := List.cons.inj hrest
        simp

end Search

theorem differsAt_define {forest : Forest} {target : ScopeRef} (h : target.index < forest.size)
    (name : String) (value : Value) :
    forest.DiffersAt (forest.define target name value) target name value where
  bound := binding?_define_self h name value
  binding? _ _ hother := binding?_define_of_ne forest hother value
  isExported scope key := isExported_define forest target scope name key value
  parent scope := by
    rcases scope_modify_cases forest target scope
        (fun scope => { scope with vars := scope.vars.insert name value })
      with hscope | ⟨_, hscope⟩
    · rw [define, hscope]
    · rw [define, hscope]
  isSealed scope := by
    rcases scope_modify_cases forest target scope
        (fun scope => { scope with vars := scope.vars.insert name value })
      with hscope | ⟨_, hscope⟩
    · rw [define, hscope]
    · rw [define, hscope]
  size := size_modify forest target _

namespace DiffersAt

variable {before after : Forest} {target ref : ScopeRef} {name key : String} {value : Value}
  (h : before.DiffersAt after target name value)
include h

theorem get?_of_resolves (hresolves : after.Resolves ref name target) :
    after.get? ref name = some value := by
  obtain ⟨below, above, hchain, hbelow, _⟩ := hresolves
  rw [get?_eq_findSome?, List.findSome?_eq_some_iff]
  exact ⟨below, target, above, hchain, h.bound, hbelow⟩

/-- Where the chain does not lead to the binding first, nothing else is read. -/
theorem get?_of_not_resolves
    (hother : ¬ (key = name ∧ after.Resolves ref name target)) :
    after.get? ref key = before.get? ref key := by
  have hchain := chain_eq_of_parents h.parent ref
  by_cases hkey : key = name
  · subst hkey
    have hunresolved : ¬ after.Resolves ref key target := fun hresolves => hother ⟨rfl, hresolves⟩
    rw [get?_eq_findSome?, get?_eq_findSome?, ← hchain]
    cases hfound : (after.chain ref).findSome? (after.binding? · key) with
    | none =>
        rw [List.findSome?_eq_none_iff] at hfound
        refine (List.findSome?_eq_none_iff.mpr fun scope hmem => ?_).symm
        have hne : scope ≠ target := by
          rintro rfl
          cases h.bound.symm.trans (hfound scope hmem)
        rw [← h.binding? scope key fun hsame => hne hsame.1]
        exact hfound scope hmem
    | some found =>
        obtain ⟨below, holder, above, hsplit, hholder, hbelow⟩ :=
          List.findSome?_eq_some_iff.mp hfound
        refine (List.findSome?_eq_some_iff.mpr ⟨below, holder, above, hsplit, ?_, ?_⟩).symm
        · have hne : holder ≠ target := by
            rintro rfl
            exact hunresolved ⟨below, above, hsplit, hbelow, Option.isSome_of_eq_some hholder⟩
          rw [← h.binding? holder key fun hsame => hne hsame.1]
          exact hholder
        · intro scope hmem
          have hne : scope ≠ target := by
            rintro rfl
            cases h.bound.symm.trans (hbelow scope hmem)
          rw [← h.binding? scope key fun hsame => hne hsame.1]
          exact hbelow scope hmem
  · have hsame : (after.binding? · key) = (before.binding? · key) := by
      funext scope
      exact h.binding? scope key fun hsame => hkey hsame.2
    rw [get?_eq_findSome?, get?_eq_findSome?, hchain, hsame]

/-- The scope from which a name is written reads what was written. -/
theorem resolves_of_isTarget (htarget : before.IsTarget ref name target) :
    after.Resolves ref name target := by
  have hchain := chain_eq_of_parents h.parent ref
  have hbound : (after.binding? target name).isSome = true := by rw [h.bound]; rfl
  rcases htarget with ⟨below, above, hsplit, hbelow, howner⟩ | ⟨_, rfl⟩
  · refine ⟨below, above, hchain.trans hsplit, fun scope hmem => ?_, hbound⟩
    have hunbound := (hbelow scope hmem).1
    have hne : scope ≠ target := by
      rintro rfl
      rw [hunbound] at howner
      cases howner
    rw [h.binding? scope name fun hsame => hne hsame.1]
    exact hunbound
  · obtain ⟨rest, hrest⟩ := before.chain_eq_cons target
    exact ⟨[], rest, hchain.trans hrest, fun _ hmem => absurd hmem List.not_mem_nil, hbound⟩

end DiffersAt

/-- In every forest that can be made, the chain of a scope is all of its parents up to
a root. An assignment is read back where it was made. It changes the one binding of
its target, which is not beyond a sealed scope, and what is read elsewhere changes for
this name and in the scopes whose chain leads to the target first. -/
theorem assign_binds_target (forest : Forest) (hgrown : forest.Grown) (ref : ScopeRef)
    (href : ref.index < forest.size) (name : String) (value : Value) :
    let after := forest.assign ref name value
    (∀ scope, forest.Ascends scope (forest.chain scope)) ∧
    after.get? ref name = some value ∧
    ∃ target, forest.IsTarget ref name target ∧ ¬ forest.BeyondSeal ref target ∧
      forest.DiffersAt after target name value ∧
      (∀ scope, after.Resolves scope name target → after.get? scope name = some value) ∧
      ∀ scope key, ¬ (key = name ∧ after.Resolves scope name target) →
        after.get? scope key = forest.get? scope key := by
  intro after
  have holder := hgrown.parentsOlder
  have htarget := forest.isTarget_owner? ref name
  have hdiffers : forest.DiffersAt after _ name value :=
    differsAt_define (htarget.index_lt href) name value
  refine ⟨holder.ascends, ?_, _, htarget, htarget.not_beyondSeal holder, hdiffers, ?_, ?_⟩
  · exact hdiffers.get?_of_resolves (hdiffers.resolves_of_isTarget htarget)
  · exact fun scope hresolves => hdiffers.get?_of_resolves hresolves
  · exact fun scope key hother => hdiffers.get?_of_not_resolves hother

/-- A root that binds a name, a sealed scope below it, and a scope below that one. -/
def sealedOff : Forest :=
  (((((empty.add .root).2.define ⟨0⟩ "x" (.truth true)).add
    (.sealedChildOf ⟨0⟩)).2).add (.childOf ⟨1⟩)).2

theorem assign_binds_target_sealedOff :
    sealedOff.Grown ∧ (sealedOff.assign ⟨2⟩ "x" .unit).get? ⟨2⟩ "x" = some .unit ∧
      (sealedOff.assign ⟨2⟩ "x" .unit).binding? ⟨0⟩ "x" = some (.truth true) := by
  have hgrown : sealedOff.Grown := by
    refine .child (.sealedChild (.define _ _ (.root .empty) ?_) ?_) ?_
    · decide
    · decide
    · decide
  have hchain : sealedOff.chain ⟨2⟩ = [⟨2⟩, ⟨1⟩, ⟨0⟩] := by
    simp [chain, sealedOff, add, define, modify, scope, empty, Scope.childOf, Scope.sealedChildOf,
      Scope.root]
  have hbeyond : sealedOff.BeyondSeal ⟨2⟩ ⟨0⟩ := ⟨[⟨2⟩], ⟨1⟩, [⟨0⟩], hchain, by decide, by simp⟩
  obtain ⟨_, hread, target, _, htarget, hdiffers, _⟩ :=
    assign_binds_target sealedOff hgrown ⟨2⟩ (by decide) "x" .unit
  refine ⟨hgrown, hread, ?_⟩
  have hne : (⟨0⟩ : ScopeRef) ≠ target := by
    rintro rfl
    exact htarget hbeyond
  rw [hdiffers.binding? ⟨0⟩ "x" fun hsame => hne hsame.1]
  decide

end Forest

end Wabun
