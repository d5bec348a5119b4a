import Wabun.Proofs.Bisimulation
import Wabun.Proofs.Ownership

/-!
What can be seen from a scope. A listing goes along the chain of the scope and leaves out
the names that it met before. A lookup goes along the same chain, up to the first scope that
binds the name. So the listing has every name that can be looked up, and has it once, with the
value that the lookup finds and with the mark of the scope where it is found. What an outer
scope binds to the name, or says of it, does not show.
-/

namespace Wabun.Forest

/-- Of some scopes, the first that binds a name. -/
def FirstBinds (forest : Forest) (scopes : List ScopeRef) (name : String) (holder : ScopeRef) :
    Prop :=
  ∃ below above, scopes = below ++ holder :: above ∧
    (∀ scope ∈ below, forest.binding? scope name = none) ∧
    (forest.binding? holder name).isSome = true

/-- Of two listed bindings, the first is that of a scope further in, or both are of one scope
and the names are in order. -/
def Precedes (forest : Forest) (scopes : List ScopeRef) (first second : Visible) : Prop :=
  ∃ inner outer, forest.FirstBinds scopes first.name inner ∧
    forest.FirstBinds scopes second.name outer ∧
    ([inner, outer].Sublist scopes ∨ inner = outer ∧ first.name < second.name)

variable {forest : Forest} {ref holder : ScopeRef} {rest scopes : List ScopeRef} {name : String}
  {value : Value} {shadowed : List String} {entry first second : Visible}

section FirstBinds

theorem firstBinds_self (h : (forest.binding? ref name).isSome = true) (rest : List ScopeRef) :
    forest.FirstBinds (ref :: rest) name ref :=
  ⟨[], rest, rfl, fun _ hmem => absurd hmem List.not_mem_nil, h⟩

theorem FirstBinds.cons (h : forest.FirstBinds rest name holder)
    (hunbound : forest.binding? ref name = none) :
    forest.FirstBinds (ref :: rest) name holder := by
  obtain ⟨below, above, rfl, hbelow, hholder⟩ := h
  exact ⟨ref :: below, above, rfl, List.forall_mem_cons.mpr ⟨hunbound, hbelow⟩, hholder⟩

theorem FirstBinds.cases (h : forest.FirstBinds (ref :: rest) name holder) :
    holder = ref ∨ forest.binding? ref name = none ∧ forest.FirstBinds rest name holder := by
  obtain ⟨below, above, hscopes, hbelow, hholder⟩ := h
  cases below with
  | nil => exact .inl (List.cons.inj hscopes).1.symm
  | cons scope below =>
      obtain ⟨rfl, rfl⟩ := List.cons.inj hscopes
      obtain ⟨hunbound, hbelow⟩ := List.forall_mem_cons.mp hbelow
      exact .inr ⟨hunbound, below, above, rfl, hbelow, hholder⟩

theorem FirstBinds.mem (h : forest.FirstBinds scopes name holder) : holder ∈ scopes := by
  obtain ⟨below, above, rfl, _⟩ := h
  simp

/-- A lookup finds what the first scope binds. -/
theorem findSome?_eq_some_iff :
    scopes.findSome? (forest.binding? · name) = some value ↔
      ∃ holder, forest.FirstBinds scopes name holder ∧ forest.binding? holder name = some value := by
  rw [List.findSome?_eq_some_iff]
  constructor
  · rintro ⟨below, holder, above, hscopes, hvalue, hbelow⟩
    exact ⟨holder, ⟨below, above, hscopes, hbelow, Option.isSome_of_eq_some hvalue⟩, hvalue⟩
  · rintro ⟨holder, ⟨below, above, hscopes, hbelow, _⟩, hvalue⟩
    exact ⟨below, holder, above, hscopes, hvalue, hbelow⟩

end FirstBinds

section Listing

/-- What is listed of one scope, if some names were met before. -/
def fresh (forest : Forest) (shadowed : List String) (ref : ScopeRef) : List Visible :=
  ((forest.scope ref).vars.entries.filter fun binding => !shadowed.contains binding.1).map
    fun binding => ⟨binding.1, binding.2, forest.isExported ref binding.1⟩

theorem visibleFrom_cons (forest : Forest) (shadowed : List String) (ref : ScopeRef)
    (rest : List ScopeRef) :
    forest.visibleFrom shadowed (ref :: rest) = forest.fresh shadowed ref ++
      forest.visibleFrom ((forest.scope ref).vars.names ++ shadowed) rest := rfl

theorem mem_fresh :
    entry ∈ forest.fresh shadowed ref ↔ entry.name ∉ shadowed ∧
      forest.binding? ref entry.name = some entry.value ∧
      forest.isExported ref entry.name = entry.exported := by
  rw [fresh, List.mem_map]
  constructor
  · rintro ⟨binding, hmem, rfl⟩
    obtain ⟨hbound, hnew⟩ := List.mem_filter.mp hmem
    exact ⟨by simpa using hnew, Table.get?_of_mem_entries hbound, rfl⟩
  · rintro ⟨hnew, hbound, hexported⟩
    have hentry : (entry.name, entry.value) ∈ (forest.scope ref).vars.entries :=
      Table.mem_entries_of_get? hbound
    exact ⟨_, List.mem_filter.mpr ⟨hentry, by simpa using hnew⟩, by rw [hexported]⟩

/-- The names of one scope are listed in order. -/
theorem pairwise_fresh (forest : Forest) (shadowed : List String) (ref : ScopeRef) :
    (forest.fresh shadowed ref).Pairwise fun first second => first.name < second.name := by
  rw [fresh, List.pairwise_map]
  exact (forest.scope ref).vars.sorted.filter _

theorem notMem_names_append_iff :
    name ∉ (forest.scope ref).vars.names ++ shadowed ↔
      forest.binding? ref name = none ∧ name ∉ shadowed := by
  rw [List.mem_append, not_or, ← Table.contains_iff_mem_names, Table.contains,
    Option.not_isSome_iff_eq_none]
  rfl

/-- A binding is listed if its name was not met before, and it is that of the first scope
which binds the name. -/
theorem mem_visibleFrom :
    entry ∈ forest.visibleFrom shadowed scopes ↔
      entry.name ∉ shadowed ∧ ∃ holder, forest.FirstBinds scopes entry.name holder ∧
        forest.binding? holder entry.name = some entry.value ∧
        forest.isExported holder entry.name = entry.exported := by
  induction scopes generalizing shadowed with
  | nil =>
      simp only [visibleFrom, List.not_mem_nil, false_iff]
      rintro ⟨_, holder, hholder, _⟩
      exact absurd hholder.mem List.not_mem_nil
  | cons ref rest ih =>
      rw [visibleFrom_cons, List.mem_append, ih, mem_fresh, notMem_names_append_iff]
      constructor
      · rintro (⟨hnew, hbound, hexported⟩ | ⟨⟨hunbound, hnew⟩, holder, hholder, hlisted⟩)
        · have hself := firstBinds_self (Option.isSome_of_eq_some hbound) rest
          exact ⟨hnew, ref, hself, hbound, hexported⟩
        · exact ⟨hnew, holder, hholder.cons hunbound, hlisted⟩
      · rintro ⟨hnew, holder, hholder, hlisted⟩
        rcases hholder.cases with rfl | ⟨hunbound, hholder⟩
        · exact .inl ⟨hnew, hlisted⟩
        · exact .inr ⟨⟨hunbound, hnew⟩, holder, hholder, hlisted⟩

/-- The listing goes from scope to scope, and in each scope from name to name. No name comes
again, since the names of a scope are passed over in all later ones. -/
theorem pairwise_visibleFrom (forest : Forest) (shadowed : List String) (scopes : List ScopeRef) :
    (forest.visibleFrom shadowed scopes).Pairwise fun first second =>
      first.name ≠ second.name ∧ forest.Precedes scopes first second := by
  induction scopes generalizing shadowed with
  | nil => exact .nil
  | cons ref rest ih =>
      have hfirst {entry : Visible} (hmem : entry ∈ forest.fresh shadowed ref) :
          forest.FirstBinds (ref :: rest) entry.name ref :=
        firstBinds_self (Option.isSome_of_eq_some (mem_fresh.mp hmem).2.1) rest
      have hunbound {entry : Visible} (hmem : entry ∈
          forest.visibleFrom ((forest.scope ref).vars.names ++ shadowed) rest) :
          forest.binding? ref entry.name = none :=
        (notMem_names_append_iff.mp (mem_visibleFrom.mp hmem).1).1
      rw [visibleFrom_cons, List.pairwise_append]
      refine ⟨?_, ?_, ?_⟩
      · refine (forest.pairwise_fresh shadowed ref).imp_of_mem fun hmem hmem' hlt => ?_
        refine ⟨fun hsame => String.lt_irrefl _ (hsame ▸ hlt), ref, ref, hfirst hmem, hfirst hmem', ?_⟩
        exact .inr ⟨rfl, hlt⟩
      · refine (ih _).imp_of_mem fun hmem hmem' ⟨hne, inner, outer, hinner, houter, horder⟩ => ?_
        refine ⟨hne, inner, outer, hinner.cons (hunbound hmem), houter.cons (hunbound hmem'), ?_⟩
        exact horder.imp (·.cons ref) id
      · intro first hmem second hmem'
        obtain ⟨_, outer, houter, _⟩ := mem_visibleFrom.mp hmem'
        refine ⟨fun hsame => ?_, ref, outer, hfirst hmem, houter.cons (hunbound hmem'), .inl ?_⟩
        · have hbound := (mem_fresh.mp hmem).2.1
          rw [hsame, hunbound hmem'] at hbound
          cases hbound
        · exact (List.singleton_sublist.mpr houter.mem).cons_cons ref

end Listing

/-- The names that are listed from a scope are those that can be looked up there. -/
theorem mem_names_visible_iff :
    name ∈ (forest.visible ref).map Visible.name ↔ (forest.get? ref name).isSome = true := by
  rw [List.mem_map, Option.isSome_iff_exists]
  constructor
  · rintro ⟨entry, hmem, rfl⟩
    obtain ⟨_, holder, hholder, hbound, _⟩ := mem_visibleFrom.mp hmem
    exact ⟨entry.value, findSome?_eq_some_iff.mpr ⟨holder, hholder, hbound⟩⟩
  · rintro ⟨value, hvalue⟩
    obtain ⟨holder, hholder, hbound⟩ := findSome?_eq_some_iff.mp hvalue
    refine ⟨⟨name, value, forest.isExported holder name⟩, ?_, rfl⟩
    exact mem_visibleFrom.mpr ⟨List.not_mem_nil, holder, hholder, hbound, rfl⟩

/-- What is listed from a scope is what can be looked up there. A name is listed once if it
can be looked up and else not at all, with the value that is found, and with the mark of the
scope that it is found in. The bindings of inner scopes come before those of outer ones, and
those of one scope in the order of their names. In every forest that can be made, the scopes
in question are all of the parents up to a root. -/
theorem visible_agrees_with_lookup (forest : Forest) (ref : ScopeRef) :
    (forest.Grown → forest.Ascends ref (forest.chain ref)) ∧
    (∀ name, ((forest.visible ref).map Visible.name).count name =
      if (forest.get? ref name).isSome then 1 else 0) ∧
    (∀ entry ∈ forest.visible ref, forest.get? ref entry.name = some entry.value ∧
      ∃ owner, forest.Resolves ref entry.name owner ∧
        entry.exported = forest.isExported owner entry.name) ∧
    (forest.visible ref).Pairwise fun first second =>
      ∃ inner outer, forest.Resolves ref first.name inner ∧
        forest.Resolves ref second.name outer ∧
        ([inner, outer].Sublist (forest.chain ref) ∨ inner = outer ∧ first.name < second.name) := by
  have hpairwise := forest.pairwise_visibleFrom [] (forest.chain ref)
  refine ⟨fun hgrown => hgrown.parentsOlder.ascends ref, fun name => ?_, fun entry hmem => ?_, ?_⟩
  · have hnodup : ((forest.visible ref).map Visible.name).Nodup :=
      List.pairwise_map.mpr (hpairwise.imp And.left)
    rw [hnodup.count]
    simp only [mem_names_visible_iff]
  · obtain ⟨_, owner, howner, hbound, hexported⟩ := mem_visibleFrom.mp hmem
    exact ⟨findSome?_eq_some_iff.mpr ⟨owner, howner, hbound⟩, owner, howner, hexported.symm⟩
  · exact hpairwise.imp And.right

-- The outer `x` is hidden and so is its mark.
example :
    let outer := (((empty.add .root).2.define ⟨0⟩ "x" .unit).define ⟨0⟩ "a" .unit).markExported
      ⟨0⟩ "x"
    let forest := ((outer.add (.childOf ⟨0⟩)).2.define ⟨1⟩ "x" (.truth true)).define ⟨1⟩ "b" .unit
    (forest.visible ⟨1⟩).map (fun entry => (entry.name, entry.value, entry.exported)) =
      [("b", .unit, false), ("x", .truth true, false), ("a", .unit, false)] := by
  decide +kernel

end Wabun.Forest
