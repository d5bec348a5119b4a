import Wabun.Proofs.Bindings
import Wabun.Proofs.Cycles

/-!
Equality of values is indistinguishability. A bisimulation relates instances only
if they are one object, or are of one class and have the same fields with values
that are equal as far as the bisimulation says. Two values are equal if and only
if some bisimulation says so, for cyclic instances as well. The pairs that are
taken for equal while they are being compared do no harm: what cannot be told
apart in some number of steps is shown of them together with the pair at hand.
-/

namespace Wabun

namespace Table

variable {α : Type}

theorem mem_entries_of_get? {table : Table α} {name : String} {value : α}
    (h : table.get? name = some value) : (name, value) ∈ table.entries := by
  obtain ⟨before, after, hentries, _⟩ := List.lookup_eq_some_iff.mp h
  rw [hentries]
  exact List.mem_append_right before List.mem_cons_self

theorem get?_of_mem_entries {table : Table α} {entry : String × α} (h : entry ∈ table.entries) :
    table.get? entry.1 = some entry.2 := by
  obtain ⟨before, after, hentries⟩ := List.append_of_mem h
  have hsorted := table.sorted
  rw [hentries, List.pairwise_append] at hsorted
  rw [get?, hentries, List.lookup_eq_some_iff]
  refine ⟨before, after, rfl, fun other hother => ?_⟩
  have hlt := hsorted.2.2 other hother entry List.mem_cons_self
  simpa using fun heq : entry.1 = other.1 => String.lt_irrefl other.1 (heq ▸ hlt)

theorem contains_iff_mem_names {table : Table α} {name : String} :
    table.contains name = true ↔ name ∈ table.names := by
  constructor
  · intro h
    obtain ⟨value, hvalue⟩ := Option.isSome_iff_exists.mp h
    exact List.mem_map.mpr ⟨(name, value), mem_entries_of_get? hvalue, rfl⟩
  · intro h
    obtain ⟨entry, hentry, rfl⟩ := List.mem_map.mp h
    exact contains_of_mem_entries hentry

theorem nodup_names (table : Table α) : table.names.Nodup := by
  rw [names, List.Nodup, List.pairwise_map]
  apply table.sorted.imp
  intro first second hlt heq
  exact String.lt_irrefl second.1 (heq ▸ hlt)

/-- Tables of one size have the same names if one has all the names of the other. -/
theorem contains_eq_iff_size_eq {first second : Table α} :
    (∀ name, first.contains name = second.contains name) ↔
      first.size = second.size ∧ ∀ name ∈ first.names, second.contains name = true := by
  have hlength (table : Table α) : table.names.length = table.size := List.length_map _
  constructor
  · intro hsame
    have hperm : first.names.Perm second.names := by
      rw [List.perm_ext_iff_of_nodup first.nodup_names second.nodup_names]
      intro name
      rw [← contains_iff_mem_names, ← contains_iff_mem_names, hsame]
    refine ⟨?_, fun name hname => ?_⟩
    · rw [← hlength, ← hlength, hperm.length_eq]
    · rw [← hsame]
      exact contains_iff_mem_names.mpr hname
  · rintro ⟨hsize, hall⟩ name
    have hsubset : first.names ⊆ second.names := fun name hname =>
      contains_iff_mem_names.mp (hall name hname)
    have hperm : first.names.Perm second.names := by
      have hle : second.names.length ≤ first.names.length := by simp [hlength, hsize]
      exact (first.nodup_names.subperm hsubset).perm_of_length_le hle
    rw [Bool.eq_iff_iff, contains_iff_mem_names, contains_iff_mem_names]
    exact hperm.mem_iff

end Table

section Tests

variable {α : Type} {items : List α} {test : α → Option Bool}

theorem allM_eq_some_true_iff :
    items.allM test = some true ↔ ∀ item ∈ items, test item = some true := by
  induction items with
  | nil => simp [List.allM]
  | cons item rest ih =>
      cases hitem : test item with
      | none => simp [List.allM, hitem]
      | some answer => cases answer <;> simp [List.allM, hitem, ih]

theorem exists_of_allM_eq_some_false (h : items.allM test = some false) :
    ∃ item ∈ items, test item = some false := by
  induction items with
  | nil => simp [List.allM] at h
  | cons item rest ih =>
      cases hitem : test item with
      | none => simp [List.allM, hitem] at h
      | some answer =>
          cases answer with
          | false => exact ⟨item, List.mem_cons_self, hitem⟩
          | true =>
              have hrest : rest.allM test = some false := by simpa [List.allM, hitem] using h
              obtain ⟨other, hother, hfalse⟩ := ih hrest
              exact ⟨other, List.mem_cons_of_mem item hother, hfalse⟩

end Tests

namespace Value

/-- Two values are equal if the instances among them are that are related. Numbers
are compared as numbers, so that the two zeros are equal and what is not a number
is not. -/
def EqualUpTo (related : InstanceRef → InstanceRef → Prop) : Value → Value → Prop
  | .number x, .number y => (x == y) = true
  | .text s, .text t => s = t
  | .truth b, .truth c => b = c
  | .unit, .unit => True
  | .procedure a, .procedure b => a = b
  | .classObject a, .classObject b => a = b
  | .enumeration a, .enumeration b => a = b
  | .instanceObject a, .instanceObject b => related a b
  | _, _ => False

variable {related other : InstanceRef → InstanceRef → Prop} {x y : Value}

theorem EqualUpTo.mono (h : x.EqualUpTo related y) (himp : ∀ a b, related a b → other a b) :
    x.EqualUpTo other y := by
  cases x <;> cases y <;> first | exact h | exact himp _ _ h

/-- What is equal up to each of several relations is equal up to all at once. -/
theorem equalUpTo_forall {relations : Nat → InstanceRef → InstanceRef → Prop}
    (h : ∀ n, x.EqualUpTo (relations n) y) : x.EqualUpTo (fun a b => ∀ n, relations n a b) y := by
  cases x <;> cases y <;> first | exact h 0 | exact h

end Value

/-- Two tables have the same names, bound to values that are equal up to a relation. -/
def Table.EqualUpTo (related : InstanceRef → InstanceRef → Prop) (first second : Table Value) :
    Prop :=
  (∀ name, first.contains name = second.contains name) ∧
    ∀ name x y, first.get? name = some x → second.get? name = some y → x.EqualUpTo related y

namespace Heap

variable (heap : Heap)

/-- Two instances are one object, or look the same from outside: they are of one
class and their fields are equal up to a relation. -/
def Resembles (related : InstanceRef → InstanceRef → Prop) (a b : InstanceRef) : Prop :=
  a = b ∨
    (heap.instanceInfo a).classRef = (heap.instanceInfo b).classRef ∧
    (heap.instanceInfo a).fields.EqualUpTo related (heap.instanceInfo b).fields

/-- A relation that gives a reason for each pair of instances in it. -/
def IsBisimulation (related : InstanceRef → InstanceRef → Prop) : Prop :=
  ∀ a b, related a b → heap.Resembles related a b

variable {heap} {related other : InstanceRef → InstanceRef → Prop} {a b : InstanceRef}

theorem Resembles.mono (h : heap.Resembles related a b)
    (himp : ∀ a b, related a b → other a b) : heap.Resembles other a b := by
  rcases h with rfl | ⟨hclass, hnames, hvalues⟩
  · exact .inl rfl
  · refine .inr ⟨hclass, hnames, fun name x y hx hy => ?_⟩
    exact (hvalues name x y hx hy).mono himp

variable (heap) in
/-- Two instances cannot be told apart by going along so many fields. -/
def AlikeFor : Nat → InstanceRef → InstanceRef → Prop
  | 0, _, _ => True
  | steps + 1, a, b => heap.Resembles (AlikeFor steps) a b

theorem AlikeFor.pred {steps : Nat} (h : heap.AlikeFor (steps + 1) a b) :
    heap.AlikeFor steps a b := by
  induction steps generalizing a b with
  | zero => trivial
  | succ steps ih => exact Resembles.mono h fun _ _ => ih

theorem isBisimulation_alike : heap.IsBisimulation fun a b => ∀ steps, heap.AlikeFor steps a b := by
  intro a b h
  by_cases hsame : a = b
  · exact .inl hsame
  · have hlooks (steps : Nat) := (h (steps + 1)).resolve_left hsame
    obtain ⟨hclass, hnames, _⟩ := hlooks 0
    refine .inr ⟨hclass, hnames, fun name x y hx hy => ?_⟩
    exact Value.equalUpTo_forall fun steps => (hlooks steps).2.2 name x y hx hy

end Heap

section Comparison

variable {instances : InstanceRef → InstanceRef → Option Bool}

theorem Value.equalBy?_eq_some_true_iff {x y : Value} :
    x.equalBy? instances y = some true ↔ x.EqualUpTo (fun a b => instances a b = some true) y := by
  cases x <;> cases y <;> simp [equalBy?, EqualUpTo]

theorem Value.not_equalUpTo_of_equalBy? {x y : Value} (h : x.equalBy? instances y = some false) :
    ¬ x.EqualUpTo (fun a b => instances a b ≠ some false) y := by
  cases x <;> cases y <;> simp_all [equalBy?, EqualUpTo]

namespace Table

/-- The comparison of one field with the one of the same name in a table. -/
def compareField? (instances : InstanceRef → InstanceRef → Option Bool) (fields : Table Value)
    (field : String × Value) : Option Bool :=
  match fields.get? field.1 with
  | some other => field.2.equalBy? instances other
  | none => some false

/-- The comparison of two tables of fields, the first one in some order. -/
def compare? (instances : InstanceRef → InstanceRef → Option Bool)
    (order : List (String × Value)) (first second : Table Value) : Option Bool :=
  if first.size ≠ second.size then some false
  else order.allM (compareField? instances second)

variable {order : List (String × Value)} {first second : Table Value} {field : String × Value}

theorem compareField?_of_get? {other : Value} (h : second.get? field.1 = some other) :
    compareField? instances second field = field.2.equalBy? instances other := by
  rw [compareField?, h]

theorem compareField?_of_not_contains (h : second.contains field.1 = false) :
    compareField? instances second field = some false := by
  rw [contains, Option.isSome_eq_false_iff, Option.isNone_iff_eq_none] at h
  rw [compareField?, h]

theorem compare?_eq_some_true_iff (horder : order.Perm first.entries) :
    compare? instances order first second = some true ↔
      first.EqualUpTo (fun a b => instances a b = some true) second := by
  rw [compare?, EqualUpTo, contains_eq_iff_size_eq]
  by_cases hsize : first.size = second.size
  · rw [if_neg (not_not_intro hsize), allM_eq_some_true_iff]
    constructor
    · intro hall
      have hfield {name : String} {x : Value} (hx : first.get? name = some x) :
          compareField? instances second (name, x) = some true :=
        hall _ (horder.mem_iff.mpr (mem_entries_of_get? hx))
      refine ⟨⟨hsize, fun name hname => ?_⟩, fun name x y hx hy => ?_⟩
      · obtain ⟨x, hx⟩ := Option.isSome_iff_exists.mp (contains_iff_mem_names.mpr hname)
        by_contra hmissing
        have hfalse : compareField? instances second (name, x) = some false :=
          compareField?_of_not_contains (by simpa using hmissing)
        simpa [hfalse] using hfield hx
      · have htrue := hfield hx
        rw [compareField?_of_get? hy] at htrue
        exact Value.equalBy?_eq_some_true_iff.mp htrue
    · rintro ⟨⟨_, hnames⟩, hvalues⟩ field hfield
      have hentry := horder.mem_iff.mp hfield
      have hcontains := hnames field.1 (List.mem_map_of_mem hentry)
      obtain ⟨y, hy⟩ := Option.isSome_iff_exists.mp hcontains
      rw [compareField?_of_get? hy, Value.equalBy?_eq_some_true_iff]
      exact hvalues field.1 field.2 y (get?_of_mem_entries hentry) hy
  · simp [hsize]

theorem not_equalUpTo_of_compare? (horder : order.Perm first.entries)
    (h : compare? instances order first second = some false) :
    ¬ first.EqualUpTo (fun a b => instances a b ≠ some false) second := by
  rintro ⟨hnames, hvalues⟩
  have hsize := (contains_eq_iff_size_eq.mp hnames).1
  rw [compare?, if_neg (not_not_intro hsize)] at h
  obtain ⟨field, hfield, hfalse⟩ := exists_of_allM_eq_some_false h
  have hentry := horder.mem_iff.mp hfield
  have hcontains := hnames field.1
  rw [contains_of_mem_entries hentry] at hcontains
  obtain ⟨y, hy⟩ := Option.isSome_iff_exists.mp hcontains.symm
  rw [compareField?_of_get? hy] at hfalse
  have hequal := hvalues field.1 field.2 y (get?_of_mem_entries hentry) hy
  exact Value.not_equalUpTo_of_equalBy? hfalse hequal

end Table

namespace Heap

variable {heap : Heap} {listing : Listing} {bound : Nat}
  {outer : List (InstanceRef × InstanceRef)} {a b : InstanceRef}

/-- One step of a comparison. -/
theorem equalInstances?_succ (heap : Heap) (listing : Listing) (bound : Nat)
    (outer : List (InstanceRef × InstanceRef)) (a b : InstanceRef) :
    heap.equalInstances? listing (bound + 1) outer a b =
      if a = b then some true
      else if (heap.instanceInfo a).classRef ≠ (heap.instanceInfo b).classRef then some false
      else if (a, b) ∈ outer then some true
      else Table.compare? (heap.equalInstances? listing bound ((a, b) :: outer))
        (listing.fields heap a) (heap.instanceInfo a).fields (heap.instanceInfo b).fields := by
  simp only [equalInstances?, Table.compare?, beq_iff_eq, bne_iff_ne, List.contains_iff_mem]
  rfl

/-- A comparison ends well if the pair is listed already or the two instances
resemble each other by what the comparison says of their fields. -/
theorem resembles_of_equalInstances?
    (h : heap.equalInstances? listing (bound + 1) outer a b = some true) :
    (a, b) ∈ outer ∨ heap.Resembles
      (fun a' b' => heap.equalInstances? listing bound ((a, b) :: outer) a' b' = some true)
      a b := by
  rw [equalInstances?_succ] at h
  by_cases hsame : a = b
  · exact .inr (.inl hsame)
  by_cases hclass : (heap.instanceInfo a).classRef = (heap.instanceInfo b).classRef
  · by_cases hlisted : (a, b) ∈ outer
    · exact .inl hlisted
    · rw [if_neg hsame, if_neg (not_not_intro hclass), if_neg hlisted] at h
      exact .inr (.inr ⟨hclass, (Table.compare?_eq_some_true_iff (listing.fields_perm heap a)).mp h⟩)
  · simp [hsame, hclass] at h

theorem not_resembles_of_equalInstances?
    (h : heap.equalInstances? listing (bound + 1) outer a b = some false) :
    ¬ heap.Resembles
      (fun a' b' => heap.equalInstances? listing bound ((a, b) :: outer) a' b' ≠ some false)
      a b := by
  rw [equalInstances?_succ] at h
  rintro (hsame | ⟨hclass, hfields⟩)
  · simp [hsame] at h
  · by_cases hends : a = b ∨ (a, b) ∈ outer
    · rcases hends with hsame | hlisted
      · simp [hsame] at h
      · simp [hclass, hlisted] at h
    · obtain ⟨hsame, hlisted⟩ := not_or.mp hends
      rw [if_neg hsame, if_neg (not_not_intro hclass), if_neg hlisted] at h
      exact Table.not_equalUpTo_of_compare? (listing.fields_perm heap a) h hfields

/-- What a comparison finds equal cannot be told apart in any number of steps, if this
holds of the pairs that it takes for equal. -/
theorem alikeFor_of_equalInstances? {steps : Nat}
    (houter : ∀ pair ∈ outer, heap.AlikeFor steps pair.1 pair.2)
    (h : heap.equalInstances? listing bound outer a b = some true) : heap.AlikeFor steps a b := by
  induction steps generalizing bound outer a b with
  | zero => trivial
  | succ steps ih =>
      have hearlier : ∀ pair ∈ outer, heap.AlikeFor steps pair.1 pair.2 :=
        fun pair hpair => (houter pair hpair).pred
      cases bound with
      | zero => cases h
      | succ bound =>
          rcases resembles_of_equalInstances? h with hlisted | hresembles
          · exact houter (a, b) hlisted
          · refine hresembles.mono fun a' b' hinner => ih ?_ hinner
            -- The pair at hand is listed from now on; one step less is known of it.
            exact List.forall_mem_cons.mpr ⟨ih hearlier h, hearlier⟩

/-- A comparison never tells apart what a bisimulation relates. -/
theorem equalInstances?_ne_some_false {related : InstanceRef → InstanceRef → Prop}
    (hrelated : heap.IsBisimulation related) (h : related a b) :
    heap.equalInstances? listing bound outer a b ≠ some false := by
  induction bound generalizing outer a b with
  | zero => exact Option.some_ne_none _ |>.symm
  | succ bound ih =>
      intro hfalse
      refine not_resembles_of_equalInstances? hfalse ?_
      exact (hrelated a b h).mono fun _ _ hinner => ih hinner

/-- Comparing two values comes to an end, and they are equal if and only if some
bisimulation says so. -/
theorem equal_iff_exists_bisimulation (heap : Heap) (listing : Listing) (x y : Value) :
    (heap.equal? listing x y).isSome = true ∧
    (heap.equal listing x y = true ↔
      ∃ related, heap.IsBisimulation related ∧ x.EqualUpTo related y) := by
  have hends := heap.isSome_equal? listing x y
  obtain ⟨answer, hanswer⟩ := Option.isSome_iff_exists.mp hends
  have hequal : heap.equal listing x y = answer := by rw [equal, hanswer, Option.getD_some]
  refine ⟨hends, ?_⟩
  rw [hequal]
  constructor
  · rintro rfl
    refine ⟨_, isBisimulation_alike, ?_⟩
    refine (Value.equalBy?_eq_some_true_iff.mp hanswer).mono fun a b hinstances steps => ?_
    exact alikeFor_of_equalInstances? (fun _ hpair => absurd hpair List.not_mem_nil) hinstances
  · rintro ⟨related, hrelated, hvalues⟩
    cases answer with
    | true => rfl
    | false =>
        refine absurd (hvalues.mono fun a b hpair => ?_) (Value.not_equalUpTo_of_equalBy? hanswer)
        exact equalInstances?_ne_some_false hrelated hpair

end Heap

end Comparison

end Wabun
