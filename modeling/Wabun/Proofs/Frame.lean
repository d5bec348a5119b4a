import Wabun.Proofs.Bindings
import Wabun.Run.State

/-!
What a part of a run leaves alone. A frame says between two states that no
scope lost a binding, that only permitted bindings of the scopes that existed
before are new or were replaced, other than by an assignment that the journal
tells of, and that loaded modules stay as they are. Frames compose, so it is
enough to know them of the single effects.
-/

namespace Wabun

/-- The bindings that a part of a run may make or replace. -/
abbrev Permit := ScopeRef → String → Prop

namespace Permit

def nothing : Permit := fun _ _ => False

/-- One name in one scope. -/
def only (scope : ScopeRef) (name : String) : Permit := fun ref key => ref = scope ∧ key = name

end Permit

namespace State

/-- Between the two states a name was assigned to, from whatever scope. -/
def Assigns (before after : State) (name : String) : Prop :=
  ∃ events scope, after.journal = events ++ before.journal ∧ Event.assigned scope name ∈ events

/-- Between the two states an assignment, from whatever scope, gave the name in this
scope its value: the journal tells of both, the one right after the other. -/
def AssignsTo (before after : State) (ref : ScopeRef) (name : String) : Prop :=
  ∃ later value scope earlier, after.journal =
    later ++ (.bound ref name value :: .assigned scope name :: earlier) ++ before.journal

/-- The scopes that existed before differ in permitted bindings only, and in the
values that names were assigned there. -/
structure KeepsScopes (permit : Permit) (before after : State) : Prop where
  journal : before.journal <:+ after.journal
  size : before.heap.forest.size ≤ after.heap.forest.size
  binds : ∀ {ref name}, (before.heap.forest.binding? ref name).isSome →
    (after.heap.forest.binding? ref name).isSome
  exports : ∀ {ref name}, before.heap.forest.isExported ref name →
    after.heap.forest.isExported ref name
  changed : ∀ {ref name}, ref.index < before.heap.forest.size →
    after.heap.forest.binding? ref name ≠ before.heap.forest.binding? ref name →
    permit ref name ∨
      (before.heap.forest.binding? ref name).isSome ∧ before.AssignsTo after ref name
  exported : ∀ {ref name}, ref.index < before.heap.forest.size →
    after.heap.forest.isExported ref name →
    permit ref name ∨ before.heap.forest.isExported ref name

/-- Loaded modules stay loaded with the same bindings, and what is being loaded
is not loaded from within. -/
structure KeepsModules (before after : State) : Prop where
  loading : after.loading = before.loading
  loaded : ∀ {name bindings}, before.modules.get? name = some bindings →
    after.modules.get? name = some bindings
  pending : ∀ name ∈ before.loading, after.modules.get? name = before.modules.get? name

structure Frame (permit : Permit) (before after : State) : Prop where
  scopes : KeepsScopes permit before after
  modules : KeepsModules before after

variable {permit other : Permit} {s t u : State} {name : String}

theorem AssignsTo.append {ref : ScopeRef} (h : s.AssignsTo t ref name)
    (hjournal : t.journal <:+ u.journal) : s.AssignsTo u ref name := by
  obtain ⟨later, value, scope, earlier, hevents⟩ := h
  obtain ⟨after, hafter⟩ := hjournal
  refine ⟨after ++ later, value, scope, earlier, ?_⟩
  simp only [← hafter, hevents, List.append_assoc]

theorem AssignsTo.prepend {ref : ScopeRef} (h : t.AssignsTo u ref name)
    (hjournal : s.journal <:+ t.journal) : s.AssignsTo u ref name := by
  obtain ⟨later, value, scope, earlier, hevents⟩ := h
  obtain ⟨before, hbefore⟩ := hjournal
  refine ⟨later, value, scope, earlier ++ before, ?_⟩
  simp only [hevents, ← hbefore, List.append_assoc, List.cons_append]

theorem AssignsTo.assigns {ref : ScopeRef} (h : s.AssignsTo t ref name) : s.Assigns t name := by
  obtain ⟨later, value, scope, earlier, hevents⟩ := h
  exact ⟨_, scope, hevents, by simp⟩

/-- Scopes are kept where the forest stays as it is. -/
theorem KeepsScopes.of_forest_eq (hforest : t.heap.forest = s.heap.forest)
    (hjournal : s.journal <:+ t.journal) : KeepsScopes permit s t where
  journal := hjournal
  size := Nat.le_of_eq (by rw [hforest])
  binds := by rw [hforest]; exact id
  exports := by rw [hforest]; exact id
  changed := by rw [hforest]; exact fun _ hchanged => absurd rfl hchanged
  exported := by rw [hforest]; exact fun _ => .inr

theorem KeepsScopes.trans (h : KeepsScopes permit s t) (h' : KeepsScopes permit t u) :
    KeepsScopes permit s u where
  journal := h.journal.trans h'.journal
  size := Nat.le_trans h.size h'.size
  binds hbinds := h'.binds (h.binds hbinds)
  exports hexports := h'.exports (h.exports hexports)
  changed {ref name} hexists hchanged := by
    -- The binding differs from the middle state in one of the two halves.
    by_cases hfirst : t.heap.forest.binding? ref name = s.heap.forest.binding? ref name
    · rw [← hfirst] at hchanged ⊢
      have hlater := h'.changed (Nat.lt_of_lt_of_le hexists h.size) hchanged
      exact hlater.imp id fun ⟨hsome, hassigns⟩ => ⟨hsome, hassigns.prepend h.journal⟩
    · have hearlier := h.changed hexists hfirst
      exact hearlier.imp id fun ⟨hsome, hassigns⟩ => ⟨hsome, hassigns.append h'.journal⟩
  exported hexists hexported := by
    rcases h'.exported (Nat.lt_of_lt_of_le hexists h.size) hexported with hpermit | hearlier
    · exact .inl hpermit
    · exact h.exported hexists hearlier

/-- Nothing happens to the forest around a part of a run. -/
theorem KeepsScopes.around {enter leave : State} (h : KeepsScopes permit enter leave)
    (henter : enter.heap.forest = s.heap.forest) (hopens : s.journal <:+ enter.journal)
    (hleave : t.heap.forest = leave.heap.forest) (hcloses : leave.journal <:+ t.journal) :
    KeepsScopes permit s t :=
  .trans (.trans (.of_forest_eq henter hopens) h) (.of_forest_eq hleave hcloses)

section Unpermitted

variable {ref : ScopeRef} (h : KeepsScopes permit s t) (hexists : ref.index < s.heap.forest.size)
include h hexists

theorem KeepsScopes.isSome_or_permit (hbinds : (t.heap.forest.binding? ref name).isSome) :
    (s.heap.forest.binding? ref name).isSome ∨ permit ref name := by
  by_cases hsame : t.heap.forest.binding? ref name = s.heap.forest.binding? ref name
  · rw [← hsame]
    exact .inl hbinds
  · rcases h.changed hexists hsame with hpermit | ⟨hbefore, _⟩
    · exact .inr hpermit
    · exact .inl hbefore

theorem KeepsScopes.isSome_eq (hpermit : ¬ permit ref name) :
    (t.heap.forest.binding? ref name).isSome = (s.heap.forest.binding? ref name).isSome := by
  rw [Bool.eq_iff_iff]
  constructor
  · intro hbinds
    exact (h.isSome_or_permit hexists hbinds).resolve_right hpermit
  · exact h.binds

theorem KeepsScopes.isExported_eq (hpermit : ¬ permit ref name) :
    t.heap.forest.isExported ref name = s.heap.forest.isExported ref name := by
  rw [Bool.eq_iff_iff]
  constructor
  · intro hexported
    exact (h.exported hexists hexported).resolve_left hpermit
  · exact h.exports

theorem KeepsScopes.binding?_eq_or_assignsTo (hpermit : ¬ permit ref name) :
    t.heap.forest.binding? ref name = s.heap.forest.binding? ref name ∨
      s.AssignsTo t ref name := by
  by_cases hsame : t.heap.forest.binding? ref name = s.heap.forest.binding? ref name
  · exact .inl hsame
  · exact .inr ((h.changed hexists hsame).resolve_left hpermit).2

theorem KeepsScopes.binding?_eq_or_assigns (hpermit : ¬ permit ref name) :
    t.heap.forest.binding? ref name = s.heap.forest.binding? ref name ∨ s.Assigns t name :=
  (h.binding?_eq_or_assignsTo hexists hpermit).imp id AssignsTo.assigns

end Unpermitted

theorem KeepsModules.trans (h : KeepsModules s t) (h' : KeepsModules t u) : KeepsModules s u where
  loading := h'.loading.trans h.loading
  loaded hloaded := h'.loaded (h.loaded hloaded)
  pending name hmem := by
    rw [h'.pending name (by rw [h.loading]; exact hmem), h.pending name hmem]

namespace Frame

theorem trans (h : Frame permit s t) (h' : Frame permit t u) : Frame permit s u :=
  ⟨h.scopes.trans h'.scopes, h.modules.trans h'.modules⟩

/-- It is enough that the scopes that existed before are permitted to change. -/
theorem weaken (h : Frame permit s t)
    (hpermit : ∀ ref name, ref.index < s.heap.forest.size → permit ref name → other ref name) :
    Frame other s t where
  scopes :=
    { journal := h.scopes.journal
      size := h.scopes.size
      binds := h.scopes.binds
      exports := h.scopes.exports
      changed := fun hexists hchanged =>
        (h.scopes.changed hexists hchanged).imp (hpermit _ _ hexists) id
      exported := fun hexists hexported =>
        (h.scopes.exported hexists hexported).imp (hpermit _ _ hexists) id }
  modules := h.modules

theorem of_nothing (h : Frame .nothing s t) : Frame permit s t :=
  h.weaken fun _ _ _ hpermit => absurd hpermit id

/-- A change that leaves scopes and modules as they are. -/
theorem of_forest_eq (hforest : t.heap.forest = s.heap.forest)
    (hjournal : s.journal <:+ t.journal) (hmodules : t.modules = s.modules)
    (hloading : t.loading = s.loading) : Frame permit s t where
  scopes := .of_forest_eq hforest hjournal
  modules :=
    { loading := hloading
      loaded := by rw [hmodules]; exact id
      pending := by rw [hmodules]; exact fun _ _ => rfl }

theorem refl (s : State) : Frame permit s s :=
  of_forest_eq rfl (List.suffix_refl _) rfl rfl

theorem record (s : State) (event : Event) :
    Frame permit s { s with journal := event :: s.journal } :=
  of_forest_eq rfl (List.suffix_cons _ _) rfl rfl

/-- A new forest in place of the old one, with the rest of the state as it is. -/
theorem of_forest (forest : Forest) (hsize : s.heap.forest.size ≤ forest.size)
    (hbinds : ∀ {ref name}, (s.heap.forest.binding? ref name).isSome →
      (forest.binding? ref name).isSome)
    (hexports : ∀ {ref name}, s.heap.forest.isExported ref name → forest.isExported ref name)
    (hchanged : ∀ {ref name}, ref.index < s.heap.forest.size →
      forest.binding? ref name ≠ s.heap.forest.binding? ref name → permit ref name)
    (hexported : ∀ {ref name}, ref.index < s.heap.forest.size → forest.isExported ref name →
      permit ref name ∨ s.heap.forest.isExported ref name) :
    Frame permit s { s with heap := { s.heap with forest } } where
  scopes :=
    { journal := List.suffix_refl _
      size := hsize
      binds := hbinds
      exports := hexports
      changed := fun hexists h => .inl (hchanged hexists h)
      exported := hexported }
  modules :=
    { loading := rfl
      loaded := id
      pending := fun _ _ => rfl }

theorem addScope (s : State) (scope : Scope) :
    Frame permit s { s with heap := (s.heap.addScope scope).2 } := by
  have hscope {ref : ScopeRef} (hexists : ref.index < s.heap.forest.size) :
      (s.heap.forest.add scope).2.scope ref = s.heap.forest.scope ref :=
    Forest.scope_add hexists scope
  refine of_forest (s.heap.forest.add scope).2 ?_ ?_ ?_ ?_ ?_
  · rw [Forest.size_add]
    omega
  · intro ref name hbinds
    obtain ⟨value, hvalue⟩ := Option.isSome_iff_exists.mp hbinds
    rw [Forest.binding?, hscope (Forest.index_lt_of_binding? hvalue)]
    exact hbinds
  · intro ref name hexports
    rw [Forest.isExported, hscope (Forest.index_lt_of_isExported hexports)]
    exact hexports
  · intro ref name hexists hchanged
    rw [Forest.binding?, Forest.binding?, hscope hexists] at hchanged
    exact absurd rfl hchanged
  · intro ref name hexists hexported
    rw [Forest.isExported, hscope hexists] at hexported
    exact .inr hexported

theorem define (s : State) (scope : ScopeRef) (name : String) (value : Value) :
    Frame (.only scope name) s
      { s with heap := { s.heap with forest := s.heap.forest.define scope name value } } := by
  refine of_forest _ ?_ ?_ ?_ ?_ ?_
  · exact Nat.le_of_eq (Forest.size_modify _ _ _).symm
  · intro ref key hbinds
    obtain ⟨old, hold⟩ := Option.isSome_iff_exists.mp hbinds
    by_cases hsame : ref = scope ∧ key = name
    · obtain ⟨rfl, rfl⟩ := hsame
      rw [Forest.binding?_define_self (Forest.index_lt_of_binding? hold)]
      rfl
    · rw [Forest.binding?_define_of_ne _ hsame]
      exact hbinds
  · intro ref key hexports
    rw [Forest.isExported_define]
    exact hexports
  · intro ref key _ hchanged
    refine Classical.byContradiction fun hother => hchanged ?_
    exact Forest.binding?_define_of_ne _ hother value
  · intro ref key _ hexported
    rw [Forest.isExported_define] at hexported
    exact .inr hexported

theorem markExported (s : State) (scope : ScopeRef) (name : String) :
    Frame (.only scope name) s
      { s with heap := { s.heap with forest := s.heap.forest.markExported scope name } } := by
  refine of_forest _ ?_ ?_ ?_ ?_ ?_
  · exact Nat.le_of_eq (Forest.size_modify _ _ _).symm
  · intro ref key hbinds
    rw [Forest.binding?_markExported]
    exact hbinds
  · intro ref key hexports
    exact Forest.isExported_markExported_of_isExported hexports scope name
  · intro ref key _ hchanged
    exact absurd (Forest.binding?_markExported _ _ _ _ _) hchanged
  · intro ref key _ hexported
    by_cases hsame : ref = scope ∧ key = name
    · exact .inl hsame
    · rw [Forest.isExported_markExported_of_ne _ hsame] at hexported
      exact .inr hexported

/-- A name that is bound already may be bound anew anywhere, if the journal has
told of an assignment to it. -/
theorem of_assigns {scope : ScopeRef} (h : Frame (.only scope name) s t)
    (hassigns : s.AssignsTo t scope name)
    (hbinds : (s.heap.forest.binding? scope name).isSome)
    (hexported : ∀ key, t.heap.forest.isExported scope key →
      s.heap.forest.isExported scope key) : Frame permit s t where
  scopes :=
    { journal := h.scopes.journal
      size := h.scopes.size
      binds := h.scopes.binds
      exports := h.scopes.exports
      changed := by
        intro ref key hexists hchanged
        rcases h.scopes.changed hexists hchanged with ⟨rfl, rfl⟩ | hassigned
        · exact .inr ⟨hbinds, hassigns⟩
        · exact .inr hassigned
      exported := by
        intro ref key hexists hkey
        rcases h.scopes.exported hexists hkey with ⟨rfl, rfl⟩ | hbefore
        · exact .inr (hexported _ hkey)
        · exact .inr hbefore }
  modules := h.modules

end Frame

end State

namespace Run

open State (Frame)

variable {α β : Type} {permit : Permit}

/-- The state that a part of a run leaves, however it ends. -/
def after (part : Run α) (state : State) : State :=
  match part state with
  | .ok _ state => state
  | .error _ state => state

section After

variable {part : Run α} {next : α → Run β} {state middle : State} {value : α} {halt : Halt}

theorem after_of_ok (h : part state = .ok value middle) : part.after state = middle := by
  rw [after, h]

theorem after_of_error (h : part state = .error halt middle) : part.after state = middle := by
  rw [after, h]

theorem bind_of_ok (h : part state = .ok value middle) :
    (part >>= next) state = next value middle := by
  change EStateM.bind part next state = _
  rw [EStateM.bind, h]

theorem bind_of_error (h : part state = .error halt middle) :
    (part >>= next) state = .error halt middle := by
  change EStateM.bind part next state = _
  rw [EStateM.bind, h]

/-- If two parts in a row give a value, each of them does. -/
theorem exists_of_bind_ok {final : State} {result : β} (h : (part >>= next) state = .ok result final) :
    ∃ value middle, part state = .ok value middle ∧ next value middle = .ok result final := by
  cases hpart : part state with
  | ok value middle => exact ⟨value, middle, rfl, (bind_of_ok hpart).symm.trans h⟩
  | error halt middle =>
      rw [bind_of_error hpart] at h
      cases h

theorem after_bind_of_ok (h : part state = .ok value middle) :
    (part >>= next).after state = (next value).after middle := by
  rw [after, bind_of_ok h, after]

theorem after_bind_of_error (h : part state = .error halt middle) :
    (part >>= next).after state = middle :=
  after_of_error (bind_of_error h)

theorem between_of_ok {enter leave : State → State} (h : part (enter state) = .ok value middle) :
    between enter leave part state = .ok value (leave middle) := by
  rw [between, h]

theorem between_of_error {enter leave : State → State}
    (h : part (enter state) = .error halt middle) :
    between enter leave part state = .error halt (leave middle) := by
  rw [between, h]

end After

theorem after_between (enter leave : State → State) (part : Run α) (state : State) :
    (between enter leave part).after state = leave (part.after (enter state)) := by
  unfold after between
  cases part (enter state) <;> rfl

end Run

namespace State.Frame

variable {permit : Permit} {s t : State}

/-- It is enough to permit the one binding that differs. -/
theorem of_only {scope : ScopeRef} {name : String} (h : Frame (.only scope name) s t)
    (hpermit : permit scope name) : Frame permit s t := by
  refine h.weaken ?_
  rintro _ _ _ ⟨rfl, rfl⟩
  exact hpermit

/-- An assignment binds a new name in its own scope only. Elsewhere it gives a
bound name another value, and the journal tells of it. -/
theorem assign (s : State) (scope : ScopeRef) (name : String) (value : Value) :
    Frame (.only scope name) s ((Run.assign scope name value).after s) := by
  have hdefined (owner : ScopeRef) : Frame (.only owner name) s
      ((Run.define owner name value).after (s.tell (.assigned scope name))) :=
    .trans (.trans (.record s _) (.define _ owner name value)) (.record _ _)
  change Frame (.only scope name) s
    ((Run.define ((s.heap.forest.owner? scope name).getD scope) name value).after _)
  cases howner : s.heap.forest.owner? scope name with
  | none => exact hdefined scope
  | some owner =>
      refine (hdefined owner).of_assigns ?_ ?_ ?_
      · exact ⟨[], value, scope, [], rfl⟩
      · exact Option.isSome_iff_exists.mpr (Forest.binding?_of_owner? howner)
      · intro key hkey
        have hsame := Forest.isExported_define s.heap.forest owner owner name key value
        exact hsame.symm.trans hkey

end State.Frame

end Wabun
