import Wabun.Scope

/-!
What the operations on tables and scopes do to the bindings that can be looked
up afterwards. Each says of every scope and every name what is bound there.
-/

namespace Wabun

namespace Table

variable {α : Type}

theorem lookup_cons_of_ne {key other : String} (h : other ≠ key) (value : α)
    (rest : List (String × α)) : ((key, value) :: rest).lookup other = rest.lookup other := by
  rw [List.lookup_cons, beq_eq_false_iff_ne.mpr h]

theorem lookup_insertEntry_self (name : String) (value : α) (entries : List (String × α)) :
    (insertEntry name value entries).lookup name = some value := by
  induction entries with
  | nil => exact List.lookup_cons_self
  | cons first rest ih =>
      obtain ⟨key, old⟩ := first
      rw [insertEntry]
      split
      · exact List.lookup_cons_self
      · next hne =>
          split
          · exact List.lookup_cons_self
          · rw [lookup_cons_of_ne hne, ih]

theorem lookup_insertEntry_of_ne {name other : String} (h : other ≠ name) (value : α)
    (entries : List (String × α)) :
    (insertEntry name value entries).lookup other = entries.lookup other := by
  induction entries with
  | nil => exact lookup_cons_of_ne h value []
  | cons first rest ih =>
      obtain ⟨key, old⟩ := first
      rw [insertEntry]
      split
      · next heq =>
          subst heq
          rw [lookup_cons_of_ne h, lookup_cons_of_ne h]
      · split
        · exact lookup_cons_of_ne h value _
        · rw [List.lookup_cons, List.lookup_cons, ih]

theorem get?_insert_self (table : Table α) (name : String) (value : α) :
    (table.insert name value).get? name = some value :=
  lookup_insertEntry_self name value table.entries

theorem get?_insert_of_ne (table : Table α) {name other : String} (h : other ≠ name) (value : α) :
    (table.insert name value).get? other = table.get? other :=
  lookup_insertEntry_of_ne h value table.entries

theorem contains_of_mem_entries {table : Table α} {entry : String × α}
    (h : entry ∈ table.entries) : table.contains entry.1 = true := by
  rw [contains, get?, List.lookup_isSome_iff]
  exact ⟨entry, h, beq_self_eq_true entry.1⟩

end Table

namespace Forest

/-- What a scope binds a name to, without its parents. -/
def binding? (forest : Forest) (ref : ScopeRef) (name : String) : Option Value :=
  (forest.scope ref).vars.get? name

def size (forest : Forest) : Nat := forest.scopes.size

theorem scope_eq_root {forest : Forest} {ref : ScopeRef} (h : forest.size ≤ ref.index) :
    forest.scope ref = .root := by
  rw [scope, Array.getD_eq_getD_getElem?, Array.getElem?_eq_none h]
  rfl

theorem binding?_eq_none {forest : Forest} {ref : ScopeRef} (h : forest.size ≤ ref.index)
    (name : String) : forest.binding? ref name = none := by
  rw [binding?, scope_eq_root h]
  rfl

theorem isExported_eq_false {forest : Forest} {ref : ScopeRef} (h : forest.size ≤ ref.index)
    (name : String) : forest.isExported ref name = false := by
  rw [isExported, scope_eq_root h]
  rfl

/-- A scope that binds a name exists. -/
theorem index_lt_of_binding? {forest : Forest} {ref : ScopeRef} {name : String} {value : Value}
    (h : forest.binding? ref name = some value) : ref.index < forest.size := by
  refine Nat.lt_of_not_le fun hsize => ?_
  rw [binding?_eq_none hsize] at h
  cases h

/-- A scope that exports a name exists. -/
theorem index_lt_of_isExported {forest : Forest} {ref : ScopeRef} {name : String}
    (h : forest.isExported ref name = true) : ref.index < forest.size := by
  refine Nat.lt_of_not_le fun hsize => ?_
  rw [isExported_eq_false hsize] at h
  cases h

theorem scope_add {forest : Forest} {ref : ScopeRef} (h : ref.index < forest.size)
    (scope : Scope) : (forest.add scope).2.scope ref = forest.scope ref := by
  rw [Forest.scope, Forest.scope, add, Array.getD_eq_getD_getElem?, Array.getD_eq_getD_getElem?,
    Array.getElem?_push_lt h, Array.getElem?_eq_getElem h]

theorem size_add (forest : Forest) (scope : Scope) : (forest.add scope).2.size = forest.size + 1 :=
  Array.size_push scope

theorem size_modify (forest : Forest) (ref : ScopeRef) (change : Scope → Scope) :
    (forest.modify ref change).size = forest.size :=
  Array.size_modify

theorem scope_modify_self {forest : Forest} {ref : ScopeRef} (h : ref.index < forest.size)
    (change : Scope → Scope) :
    (forest.modify ref change).scope ref = change (forest.scope ref) := by
  rw [scope, scope, modify, Array.getD_eq_getD_getElem?, Array.getD_eq_getD_getElem?,
    Array.getElem?_modify, if_pos rfl, Array.getElem?_eq_getElem h]
  rfl

theorem scope_modify_of_ne {forest : Forest} {ref other : ScopeRef} (h : other ≠ ref)
    (change : Scope → Scope) : (forest.modify ref change).scope other = forest.scope other := by
  have hindex : ref.index ≠ other.index := fun heq => h (congrArg ScopeRef.mk heq.symm)
  rw [scope, scope, modify, Array.getD_eq_getD_getElem?, Array.getD_eq_getD_getElem?,
    Array.getElem?_modify, if_neg hindex]

/-- A change reaches one scope only, and none if that scope does not exist. -/
theorem scope_modify_cases (forest : Forest) (ref other : ScopeRef) (change : Scope → Scope) :
    (forest.modify ref change).scope other = forest.scope other ∨
    other = ref ∧ (forest.modify ref change).scope other = change (forest.scope other) := by
  by_cases hother : other = ref
  · by_cases hexists : other.index < forest.size
    · subst hother
      exact .inr ⟨rfl, scope_modify_self hexists change⟩
    · have hsize := Nat.le_of_not_lt hexists
      rw [scope_eq_root hsize, scope_eq_root (by rw [size_modify]; exact hsize)]
      exact .inl rfl
  · exact .inl (scope_modify_of_ne hother change)

theorem binding?_define_self {forest : Forest} {ref : ScopeRef} (h : ref.index < forest.size)
    (name : String) (value : Value) :
    (forest.define ref name value).binding? ref name = some value := by
  rw [binding?, define, scope_modify_self h]
  exact Table.get?_insert_self _ name value

theorem binding?_define_of_ne (forest : Forest) {ref other : ScopeRef} {name key : String}
    (h : ¬ (other = ref ∧ key = name)) (value : Value) :
    (forest.define ref name value).binding? other key = forest.binding? other key := by
  rw [binding?, binding?, define]
  rcases scope_modify_cases forest ref other
      (fun scope => { scope with vars := scope.vars.insert name value })
    with hscope | ⟨hother, hscope⟩
  · rw [hscope]
  · rw [hscope]
    exact Table.get?_insert_of_ne _ (fun hkey => h ⟨hother, hkey⟩) value

theorem isExported_define (forest : Forest) (ref other : ScopeRef) (name key : String)
    (value : Value) :
    (forest.define ref name value).isExported other key = forest.isExported other key := by
  rw [isExported, isExported, define]
  rcases scope_modify_cases forest ref other
      (fun scope => { scope with vars := scope.vars.insert name value })
    with hscope | ⟨_, hscope⟩
  · rw [hscope]
  · rw [hscope]

theorem binding?_markExported (forest : Forest) (ref other : ScopeRef) (name key : String) :
    (forest.markExported ref name).binding? other key = forest.binding? other key := by
  rw [binding?, binding?, markExported]
  rcases scope_modify_cases forest ref other
      (fun scope => { scope with exported := scope.exported.insert name () })
    with hscope | ⟨_, hscope⟩
  · rw [hscope]
  · rw [hscope]

theorem isExported_markExported_of_ne (forest : Forest) {ref other : ScopeRef} {name key : String}
    (h : ¬ (other = ref ∧ key = name)) :
    (forest.markExported ref name).isExported other key = forest.isExported other key := by
  rw [isExported, isExported, markExported]
  rcases scope_modify_cases forest ref other
      (fun scope => { scope with exported := scope.exported.insert name () })
    with hscope | ⟨hother, hscope⟩
  · rw [hscope]
  · rw [hscope, Table.contains, Table.contains,
      Table.get?_insert_of_ne _ (fun hkey => h ⟨hother, hkey⟩)]

theorem isExported_markExported_of_isExported {forest : Forest} {other : ScopeRef} {key : String}
    (h : forest.isExported other key = true) (ref : ScopeRef) (name : String) :
    (forest.markExported ref name).isExported other key = true := by
  by_cases hsame : other = ref ∧ key = name
  · obtain ⟨rfl, rfl⟩ := hsame
    rw [isExported, markExported, scope_modify_self (index_lt_of_isExported h)]
    simp only [Table.contains, Table.get?_insert_self, Option.isSome_some]
  · rw [isExported_markExported_of_ne forest hsame, h]

/-- The scope that a name is written to from below binds it already. -/
theorem binding?_of_owner? {forest : Forest} {ref owner : ScopeRef} {name : String}
    (h : forest.owner? ref name = some owner) :
    ∃ value, forest.binding? owner name = some value := by
  have hcontains : (forest.scope owner).vars.contains name = true :=
    List.find?_some (p := fun ref => (forest.scope ref).vars.contains name) h
  exact Option.isSome_iff_exists.mp hcontains

end Forest

end Wabun
