import Wabun.Proofs.Moments

/-!
Classes and what they extend. A class is younger than its parent at every moment of a
session, also if it has the name of its parent or of a class that it hides. So the way
from a class over its parents is finite and meets no class twice, and the four ways of
walking it agree: the lineage goes from the root to the class, methods and static methods
are those of the last class in it that has some, and a class answers to every name in it.
-/

namespace Wabun

/-- What is found first from the end is what the last item with an answer has. -/
theorem findSome?_reverse_eq_some_iff {α β : Type} {items : List α} {answer : α → Option β}
    {found : β} :
    items.reverse.findSome? answer = some found ↔
      ∃ earlier item later, items = earlier ++ item :: later ∧ answer item = some found ∧
        ∀ other ∈ later, answer other = none := by
  rw [List.findSome?_eq_some_iff]
  constructor
  · rintro ⟨later, item, earlier, hitems, hfound, hnone⟩
    refine ⟨earlier.reverse, item, later.reverse, ?_, hfound, fun other hmem => ?_⟩
    · rw [← List.reverse_reverse items, hitems]
      simp
    · exact hnone other (List.mem_reverse.mp hmem)
  · rintro ⟨earlier, item, later, hitems, hfound, hnone⟩
    refine ⟨later.reverse, item, earlier.reverse, ?_, hfound, fun other hmem => ?_⟩
    · rw [hitems]
      simp
    · exact hnone other (List.mem_reverse.mp hmem)

namespace Heap

/-- The way from a class over its parents, up to one that has none. -/
inductive Ascends (heap : Heap) : ClassRef → List ClassRef → Prop
  | root {ref : ClassRef} (h : (heap.classInfo ref).parent = none) : Ascends heap ref [ref]
  | child {ref parent : ClassRef} {rest : List ClassRef}
    (hparent : (heap.classInfo ref).parent = some parent) (h : Ascends heap parent rest) :
    Ascends heap ref (ref :: rest)

/-- The last of some classes that has a method of this name has this one. The methods of a
class are taken from one of its tables. -/
def HoldsLast (heap : Heap) (table : ClassInfo → Table ProcedureRef) (classes : List ClassRef)
    (name : String) (method : ProcedureRef) : Prop :=
  ∃ older holder younger, classes = older ++ holder :: younger ∧
    (table (heap.classInfo holder)).get? name = some method ∧
    ∀ other ∈ younger, (table (heap.classInfo other)).get? name = none

section Walks

variable {heap : Heap} {ref : ClassRef} {name : String}

theorem ancestry_of_root (h : (heap.classInfo ref).parent = none) :
    heap.ancestry ref = [ref] := by
  rw [ancestry, h]

theorem Sound.ancestry (hheap : heap.Sound) {parent : ClassRef}
    (h : (heap.classInfo ref).parent = some parent) :
    heap.ancestry ref = ref :: heap.ancestry parent := by
  rw [Heap.ancestry, h]
  simp only [if_pos (hheap.older h)]

theorem Sound.wellFounded (hheap : heap.Sound) :
    WellFounded fun parent ref => (heap.classInfo ref).parent = some parent :=
  Subrelation.wf (fun h => hheap.older h) (measure ClassRef.index).wf

/-- What is shown of a class if it holds of its parent is shown of every class. -/
theorem Sound.induction (hheap : heap.Sound) {motive : ClassRef → Prop}
    (root : ∀ ref, (heap.classInfo ref).parent = none → motive ref)
    (child : ∀ ref parent, (heap.classInfo ref).parent = some parent → motive parent →
      motive ref) (ref : ClassRef) : motive ref := by
  induction ref using hheap.wellFounded.induction with
  | h ref ih =>
      cases hparent : (heap.classInfo ref).parent with
      | none => exact root ref hparent
      | some parent => exact child ref parent hparent (ih parent hparent)

theorem Sound.ascends_ancestry (hheap : heap.Sound) (ref : ClassRef) :
    heap.Ascends ref (heap.ancestry ref) := by
  induction ref using hheap.induction with
  | root ref hparent =>
      rw [ancestry_of_root hparent]
      exact .root hparent
  | child ref parent hparent ih =>
      rw [hheap.ancestry hparent]
      exact .child hparent ih

theorem Sound.index_le (hheap : heap.Sound) (ref : ClassRef) :
    ∀ member ∈ heap.ancestry ref, member.index ≤ ref.index := by
  induction ref using hheap.induction with
  | root ref hparent => simp [ancestry_of_root hparent]
  | child ref parent hparent ih =>
      have holder := hheap.older hparent
      rw [hheap.ancestry hparent]
      intro member hmem
      rcases List.mem_cons.mp hmem with rfl | hmem
      · exact Nat.le_refl _
      · have hle := ih member hmem
        omega

theorem Sound.nodup_ancestry (hheap : heap.Sound) (ref : ClassRef) :
    (heap.ancestry ref).Nodup := by
  induction ref using hheap.induction with
  | root ref hparent => simp [ancestry_of_root hparent]
  | child ref parent hparent ih =>
      have holder := hheap.older hparent
      rw [hheap.ancestry hparent]
      refine List.nodup_cons.mpr ⟨fun hmem => ?_, ih⟩
      have hle := hheap.index_le parent ref hmem
      omega

/-- The way from a class on the way is the rest of it. -/
theorem Sound.ancestry_subset (hheap : heap.Sound) {member : ClassRef}
    (h : member ∈ heap.ancestry ref) : heap.ancestry member ⊆ heap.ancestry ref := by
  induction ref using hheap.induction with
  | root ref hparent =>
      rw [ancestry_of_root hparent, List.mem_singleton] at h
      rw [h]
      exact List.Subset.refl _
  | child ref parent hparent ih =>
      rw [hheap.ancestry hparent] at h ⊢
      rcases List.mem_cons.mp h with rfl | h
      · rw [hheap.ancestry hparent]
        exact List.Subset.refl _
      · exact List.subset_cons_of_subset ref (ih h)

theorem mem_lineage {member : ClassRef} : member ∈ heap.lineage ref ↔ member ∈ heap.ancestry ref :=
  List.mem_reverse

theorem reverse_lineage (heap : Heap) (ref : ClassRef) :
    (heap.lineage ref).reverse = heap.ancestry ref :=
  List.reverse_reverse _

/-- What is found first on the way from a class is held last in its lineage. -/
theorem findSome?_ancestry_eq_some_iff (table : ClassInfo → Table ProcedureRef)
    {method : ProcedureRef} :
    ((heap.ancestry ref).findSome? fun member => (table (heap.classInfo member)).get? name) =
        some method ↔
      heap.HoldsLast table (heap.lineage ref) name method := by
  rw [← reverse_lineage, findSome?_reverse_eq_some_iff]
  rfl

theorem findSome?_ancestry_eq_none_iff (table : ClassInfo → Table ProcedureRef) :
    ((heap.ancestry ref).findSome? fun member => (table (heap.classInfo member)).get? name) =
        none ↔
      ∀ member ∈ heap.lineage ref, (table (heap.classInfo member)).get? name = none := by
  rw [List.findSome?_eq_none_iff]
  simp only [mem_lineage]

theorem isOrExtends_iff :
    heap.isOrExtends ref name = true ↔
      ∃ member ∈ heap.lineage ref, (heap.classInfo member).name = name := by
  rw [isOrExtends, List.any_eq_true]
  simp only [mem_lineage, beq_iff_eq]

/-- A name that describes the instances of a class describes those of the classes that
extend it. -/
theorem Sound.matchesType_of_mem_lineage (hheap : heap.Sound) {object other : InstanceRef}
    (hmem : (heap.instanceInfo object).classRef ∈ heap.lineage (heap.instanceInfo other).classRef)
    (h : heap.matchesType (.instanceObject object) name = true) :
    heap.matchesType (.instanceObject other) name = true := by
  have hsubset := hheap.ancestry_subset (mem_lineage.mp hmem)
  simp only [matchesType, Bool.or_eq_true] at h ⊢
  refine h.imp id fun hextends => ?_
  obtain ⟨member, hmember, hname⟩ := isOrExtends_iff.mp hextends
  exact isOrExtends_iff.mpr ⟨member, mem_lineage.mpr (hsubset (mem_lineage.mp hmember)), hname⟩

end Walks

end Heap

/-- At every moment of a session the classes are well founded in their parents. The lineage
of a class is the way over its parents, read from the root, without repetitions. Methods and
static methods are found in the last class of the lineage that has them at that moment, the
names of a class are those in its lineage, and what describes the instances of a class
describes those of every class with that class in its lineage. -/
theorem State.hierarchy_of_passed {state : State} (h : state.Passed) :
    let heap := state.heap
    (WellFounded fun parent ref => (heap.classInfo ref).parent = some parent) ∧
    (∀ ref, heap.Ascends ref (heap.lineage ref).reverse ∧ (heap.lineage ref).Nodup) ∧
    (∀ ref name,
      (∀ method, heap.findMethod? ref name = some method ↔
        heap.HoldsLast ClassInfo.methods (heap.lineage ref) name method) ∧
      (heap.findMethod? ref name = none ↔
        ∀ member ∈ heap.lineage ref, (heap.classInfo member).methods.get? name = none)) ∧
    (∀ ref name,
      (∀ method, heap.findStatic? ref name = some method ↔
        heap.HoldsLast ClassInfo.statics (heap.lineage ref) name method) ∧
      (heap.findStatic? ref name = none ↔
        ∀ member ∈ heap.lineage ref, (heap.classInfo member).statics.get? name = none)) ∧
    (∀ ref name, heap.isOrExtends ref name = true ↔
      ∃ member ∈ heap.lineage ref, (heap.classInfo member).name = name) ∧
    ∀ object other : InstanceRef,
      (heap.instanceInfo object).classRef ∈ heap.lineage (heap.instanceInfo other).classRef →
      ∀ name, heap.matchesType (.instanceObject object) name = true →
        heap.matchesType (.instanceObject other) name = true := by
  intro heap
  have hheap : heap.Sound := h.sound.heap
  refine ⟨hheap.wellFounded, fun ref => ⟨?_, ?_⟩, fun ref name => ⟨fun method => ?_, ?_⟩,
    fun ref name => ⟨fun method => ?_, ?_⟩, fun ref name => Heap.isOrExtends_iff, ?_⟩
  · rw [Heap.reverse_lineage]
    exact hheap.ascends_ancestry ref
  · exact List.pairwise_reverse.mpr ((hheap.nodup_ancestry ref).imp Ne.symm)
  · exact Heap.findSome?_ancestry_eq_some_iff ClassInfo.methods
  · exact Heap.findSome?_ancestry_eq_none_iff ClassInfo.methods
  · exact Heap.findSome?_ancestry_eq_some_iff ClassInfo.statics
  · exact Heap.findSome?_ancestry_eq_none_iff ClassInfo.statics
  · exact fun object other hmem name => hheap.matchesType_of_mem_lineage hmem

/-- A class that extends the one it hides, and a static method that it gets later. -/
def hidingClass : List Node :=
  [.classDeclaration "族" none [.function "名" [] []], .classDeclaration "族" (some "族") [],
    .staticMethod "族" "作" []]

theorem State.hierarchy_of_passed_hidingClass :
    let start := Run.root.after .initial
    let halfway := ((Engine.cutAt Host.standard (fun state => state.heap.classes.size == 2)
      9).execute hidingClass ⟨0⟩).after start
    let final := ((Engine.ofFuel Host.standard 9).execute hidingClass ⟨0⟩).after start
    halfway.Passed ∧ final.Passed ∧ halfway.heap.lineage ⟨1⟩ = [⟨0⟩, ⟨1⟩] ∧
    (∀ member ∈ halfway.heap.lineage ⟨1⟩,
      (halfway.heap.classInfo member).statics.get? "作" = none) ∧
    final.heap.HoldsLast ClassInfo.statics (final.heap.lineage ⟨1⟩) "作" ⟨1⟩ ∧
    final.heap.HoldsLast ClassInfo.methods (final.heap.lineage ⟨1⟩) "名" ⟨0⟩ := by
  intro start halfway final
  have hstart : start.Reached := .root .initial
  have hhalfway : halfway.Passed := .execute _ _ _ _ _ hstart
  have hfinal : final.Passed := .reached (.execute _ _ _ _ hstart)
  obtain ⟨_, _, _, hstatics, _⟩ := State.hierarchy_of_passed hhalfway
  obtain ⟨_, _, hmethods, hstatics', _⟩ := State.hierarchy_of_passed hfinal
  refine ⟨hhalfway, hfinal, by decide +kernel, (hstatics ⟨1⟩ "作").2.mp (by decide +kernel),
    ((hstatics' ⟨1⟩ "作").1 ⟨1⟩).mp (by decide +kernel),
    ((hmethods ⟨1⟩ "名").1 ⟨0⟩).mp (by decide +kernel)⟩

end Wabun
