import Mathlib.Data.List.Perm.Subperm
import Mathlib.Data.List.ProdSigma
import Wabun.Heap.Display
import Wabun.Heap.Equality

/-!
Comparing instances and showing them comes to an end, also where instances refer
to each other in a circle. Nothing is listed twice on the way to an instance, and
only an instance of the heap has fields that the way can go on to. So there is
never more on the way than the bound allows for.
-/

namespace Wabun

/-- What is met on a way that does not come back to itself. -/
structure Trail {α : Type} (all outer : List α) : Prop where
  nodup : outer.Nodup
  subset : outer ⊆ all

namespace Trail

variable {α : Type} {all outer : List α}

theorem nil (all : List α) : Trail all [] :=
  ⟨.nil, List.nil_subset all⟩

theorem cons (h : Trail all outer) {item : α} (hmem : item ∈ all) (hnew : item ∉ outer) :
    Trail all (item :: outer) :=
  ⟨List.nodup_cons.mpr ⟨hnew, h.nodup⟩, List.cons_subset.mpr ⟨hmem, h.subset⟩⟩

theorem length_le (h : Trail all outer) : outer.length ≤ all.length :=
  (h.nodup.subperm h.subset).length_le

end Trail

section Answers

variable {α β : Type}

theorem isSome_bind {part : Option α} {next : α → Option β} (h : part.isSome = true)
    (hnext : ∀ value, (next value).isSome = true) : (part >>= next).isSome = true := by
  obtain ⟨value, rfl⟩ := Option.isSome_iff_exists.mp h
  exact hnext value

theorem isSome_allM {items : List α} {test : α → Option Bool}
    (h : ∀ item ∈ items, (test item).isSome = true) : (items.allM test).isSome = true := by
  induction items with
  | nil => rfl
  | cons item rest ih =>
      refine isSome_bind (h item List.mem_cons_self) fun answer => ?_
      cases answer with
      | true => exact ih fun other hmem => h other (List.mem_cons_of_mem item hmem)
      | false => rfl

theorem isSome_mapM {items : List α} {write : α → Option β}
    (h : ∀ item ∈ items, (write item).isSome = true) : (items.mapM write).isSome = true := by
  induction items with
  | nil => rfl
  | cons item rest ih =>
      have hrest := ih fun other hmem => h other (List.mem_cons_of_mem item hmem)
      rw [List.mapM_cons]
      exact isSome_bind (h item List.mem_cons_self) fun _ => isSome_bind hrest fun _ => rfl

end Answers

theorem Value.isSome_equalBy? {instances : InstanceRef → InstanceRef → Option Bool}
    (h : ∀ a b, (instances a b).isSome = true) (x y : Value) :
    (x.equalBy? instances y).isSome = true := by
  unfold Value.equalBy?
  split
  · rfl
  · rfl
  · rfl
  · rfl
  · rfl
  · rfl
  · rfl
  · exact h _ _
  · rfl

namespace Heap

variable (heap : Heap)

/-- The instances of the heap. -/
def instanceRefs : List InstanceRef :=
  (List.range heap.instances.size).map InstanceRef.mk

theorem length_instanceRefs : heap.instanceRefs.length = heap.instances.size := by
  simp [instanceRefs]

/-- Only an instance of the heap has fields. -/
theorem mem_instanceRefs {ref : InstanceRef} {field : String × Value}
    (h : field ∈ (heap.instanceInfo ref).fields.entries) : ref ∈ heap.instanceRefs := by
  by_cases hlt : ref.index < heap.instances.size
  · exact List.mem_map.mpr ⟨ref.index, List.mem_range.mpr hlt, rfl⟩
  · have hinfo : heap.instanceInfo ref = ⟨⟨0⟩, ∅⟩ := by
      simp [instanceInfo, hlt]
    rw [hinfo] at h
    exact absurd h List.not_mem_nil

theorem isSome_equalInstances? (listing : Listing) (bound : Nat)
    (outer : List (InstanceRef × InstanceRef)) (a b : InstanceRef)
    (htrail : Trail (heap.instanceRefs ×ˢ heap.instanceRefs) outer)
    (hbound : heap.instances.size * heap.instances.size < outer.length + bound) :
    (heap.equalInstances? listing bound outer a b).isSome = true := by
  induction bound generalizing outer a b with
  | zero =>
      have hlength := htrail.length_le
      rw [List.length_product, length_instanceRefs] at hlength
      omega
  | succ bound ih =>
      rw [equalInstances?]
      dsimp only
      split
      · rfl
      split
      · rfl
      split
      · rfl
      split
      · rfl
      next hnew hsize =>
        apply isSome_allM
        intro field hfield
        have hentry := (listing.fields_perm heap a).mem_iff.mp hfield
        have hfirst : a ∈ heap.instanceRefs := heap.mem_instanceRefs hentry
        -- The other instance has as many fields, so it is in the heap as well.
        have hlength : (heap.instanceInfo a).fields.entries.length =
            (heap.instanceInfo b).fields.entries.length := by
          simpa [Table.size] using hsize
        have hpositive := List.length_pos_of_mem hentry
        rw [hlength] at hpositive
        obtain ⟨other, hother⟩ := List.exists_mem_of_length_pos hpositive
        have hsecond : b ∈ heap.instanceRefs := heap.mem_instanceRefs hother
        have hnotListed : (a, b) ∉ outer := by simpa using hnew
        have hnext := htrail.cons (List.pair_mem_product.mpr ⟨hfirst, hsecond⟩) hnotListed
        split
        · apply Value.isSome_equalBy?
          intro a' b'
          exact ih _ a' b' hnext (by rw [List.length_cons]; omega)
        · rfl

theorem isSome_equal? (listing : Listing) (x y : Value) :
    (heap.equal? listing x y).isSome = true := by
  apply Value.isSome_equalBy?
  intro a b
  exact heap.isSome_equalInstances? listing _ [] a b (.nil _) (by simp)

theorem isSome_displayWith? {instanceText : InstanceRef → Option String}
    (h : ∀ ref, (instanceText ref).isSome = true) (value : Value) :
    (heap.displayWith? instanceText value).isSome = true := by
  cases value with
  | instanceObject ref => exact h ref
  | _ => rfl

theorem isSome_displayInstance? (bound : Nat) (outer : List InstanceRef) (ref : InstanceRef)
    (htrail : Trail heap.instanceRefs outer)
    (hbound : heap.instances.size < outer.length + bound) :
    (heap.displayInstance? bound outer ref).isSome = true := by
  induction bound generalizing outer ref with
  | zero =>
      have hlength := htrail.length_le
      rw [length_instanceRefs] at hlength
      omega
  | succ bound ih =>
      rw [displayInstance?]
      split
      · rfl
      next hnew =>
        have hnotListed : ref ∉ outer := by simpa using hnew
        refine isSome_bind (isSome_mapM fun field hfield => ?_) fun _ => rfl
        have hnext := htrail.cons (heap.mem_instanceRefs hfield) hnotListed
        refine isSome_bind (heap.isSome_displayWith? (fun inner => ?_) field.2) fun _ => rfl
        exact ih _ inner hnext (by rw [List.length_cons]; omega)

theorem isSome_display? (value : Value) : (heap.display? value).isSome = true := by
  apply isSome_displayWith?
  intro ref
  exact heap.isSome_displayInstance? _ [] ref (.nil _) (by simp)

end Heap

end Wabun
