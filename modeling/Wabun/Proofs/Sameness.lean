import Mathlib
import Wabun.Proofs.Unfolding

/-!
Equality of values has the laws that a program relies on. It is symmetric and
transitive, and every value is equal to itself but what is not a number; an
instance that has such a field is still equal to itself, because it is the same
object. Equal values have the same type, are described by the same type names and
count as true alike. They have the same text as well, if no instance in them can be
reached from itself; two circles of different lengths can be equal and be shown
differently.
-/

namespace Wabun

section Numbers

variable {x y z : Float}

/-- Numbers are equal if they are one number, or are both a zero. -/
theorem eq_or_zeros_of_beq (h : (x == y) = true) : x = y ∨ (x == 0) = true ∧ (y == 0) = true := by
  obtain ⟨hx, hy, hsame | ⟨rfl, rfl⟩ | ⟨rfl, rfl⟩⟩ := Float.beq_iff_ne_nan_and_eq.mp h
  · exact .inl hsame
  · exact .inr ⟨by decide, by decide⟩
  · exact .inr ⟨by decide, by decide⟩

theorem beq_comm_of_beq (h : (x == y) = true) : (y == x) = true := by
  obtain ⟨hx, hy, hsame | hzeros | hzeros⟩ := Float.beq_iff_ne_nan_and_eq.mp h
  · exact Float.beq_iff_ne_nan_and_eq.mpr ⟨hy, hx, .inl hsame.symm⟩
  · exact Float.beq_iff_ne_nan_and_eq.mpr ⟨hy, hx, .inr (.inr hzeros.symm)⟩
  · exact Float.beq_iff_ne_nan_and_eq.mpr ⟨hy, hx, .inr (.inl hzeros.symm)⟩

theorem beq_of_zeros (hx : (x == 0) = true) (hy : (y == 0) = true) : (x == y) = true := by
  obtain ⟨hx, _, hzero⟩ := Float.beq_iff_ne_nan_and_eq.mp hx
  obtain ⟨hy, _, hzero'⟩ := Float.beq_iff_ne_nan_and_eq.mp hy
  refine Float.beq_iff_ne_nan_and_eq.mpr ⟨hx, hy, ?_⟩
  grind

theorem beq_of_beq_of_beq (hxy : (x == y) = true) (hyz : (y == z) = true) : (x == z) = true := by
  rcases eq_or_zeros_of_beq hxy with rfl | ⟨hx, hy⟩
  · exact hyz
  · rcases eq_or_zeros_of_beq hyz with rfl | ⟨_, hz⟩
    · exact hxy
    · exact beq_of_zeros hx hz

end Numbers

namespace Value

variable {x y z : Value} {related : InstanceRef → InstanceRef → Prop}

theorem EqualUpTo.symm (hsymm : ∀ a b, related a b → related b a) (h : x.EqualUpTo related y) :
    y.EqualUpTo related x := by
  cases x <;> cases y <;> first
    | exact beq_comm_of_beq h
    | exact hsymm _ _ h
    | exact Eq.symm h
    | exact h

theorem EqualUpTo.trans (htrans : ∀ a b c, related a b → related b c → related a c)
    (h : x.EqualUpTo related y) (hnext : y.EqualUpTo related z) : x.EqualUpTo related z := by
  cases x <;> cases y <;> try exact h.elim
  all_goals cases z <;> first
    | exact hnext.elim
    | exact beq_of_beq_of_beq h hnext
    | exact htrans _ _ _ h hnext
    | exact Eq.trans h hnext
    | exact h

/-- Of all values only what is not a number differs from itself. -/
theorem equalUpTo_self_iff (hrefl : ∀ a, related a a) :
    x.EqualUpTo related x ↔ ∀ number, x = .number number → number.isNaN = false := by
  cases x with
  | number value =>
      rw [EqualUpTo, Float.beq_self_iff]
      simp [Float.isNaN_eq_decide_eq_nan]
  | instanceObject ref => simp [EqualUpTo, hrefl]
  | _ => simp [EqualUpTo]

theorem EqualUpTo.typeName_eq (h : x.EqualUpTo related y) : x.typeName = y.typeName := by
  cases x <;> cases y <;> first | rfl | exact h.elim

theorem EqualUpTo.isTruthy_eq (h : x.EqualUpTo related y) : x.isTruthy = y.isTruthy := by
  cases x <;> cases y <;> try first | rfl | exact h.elim
  case number.number x y =>
    rcases eq_or_zeros_of_beq h with rfl | ⟨hzero, hzero'⟩
    · rfl
    · simp [isTruthy, bne, hzero, hzero']
  case text.text s t => rw [show s = t from h]
  case truth.truth b c => rw [show b = c from h]

end Value

namespace Table

variable {first second third : Table Value} {related : InstanceRef → InstanceRef → Prop}

theorem EqualUpTo.symm (hsymm : ∀ a b, related a b → related b a)
    (h : first.EqualUpTo related second) : second.EqualUpTo related first :=
  ⟨fun name => (h.1 name).symm, fun name x y hx hy => (h.2 name y x hy hx).symm hsymm⟩

theorem EqualUpTo.trans (htrans : ∀ a b c, related a b → related b c → related a c)
    (h : first.EqualUpTo related second) (hnext : second.EqualUpTo related third) :
    first.EqualUpTo related third := by
  refine ⟨fun name => (h.1 name).trans (hnext.1 name), fun name x z hx hz => ?_⟩
  have hmiddle : second.contains name = true := by
    rw [← h.1, contains, hx, Option.isSome_some]
  obtain ⟨y, hy⟩ := Option.isSome_iff_exists.mp hmiddle
  exact (h.2 name x y hx hy).trans htrans (hnext.2 name y z hy hz)

/-- Tables with the same names have entries that stand in the same order. -/
theorem forall₂_entries {α : Type} {fits : α → α → Prop} {first second : Table α}
    (hnames : ∀ name, first.contains name = second.contains name)
    (h : ∀ name x y, first.get? name = some x → second.get? name = some y → fits x y) :
    List.Forall₂ (fun a b => a.1 = b.1 ∧ fits a.2 b.2) first.entries second.entries := by
  have hperm : first.names.Perm second.names := by
    rw [List.perm_ext_iff_of_nodup first.nodup_names second.nodup_names]
    intro name
    rw [← contains_iff_mem_names, ← contains_iff_mem_names, hnames]
  have hsame : first.names = second.names := by
    apply hperm.eq_of_pairwise
    · intro a b _ _ hlt hgt
      exact absurd (String.lt_trans hlt hgt) (String.lt_irrefl a)
    · exact List.pairwise_map.mpr first.sorted
    · exact List.pairwise_map.mpr second.sorted
  have hpairs : List.Forall₂ (fun a b => a.1 = b.1) first.entries second.entries := by
    rw [← List.forall₂_map_right_iff, ← List.forall₂_map_left_iff, List.forall₂_eq_eq_eq]
    exact hsame
  rw [List.forall₂_iff_zip] at hpairs ⊢
  refine ⟨hpairs.1, fun {a b} hmem => ?_⟩
  have hname : a.1 = b.1 := hpairs.2 hmem
  obtain ⟨ha, hb⟩ := List.of_mem_zip hmem
  exact ⟨hname, h a.1 a.2 b.2 (get?_of_mem_entries ha) (hname ▸ get?_of_mem_entries hb)⟩

end Table

namespace Heap

variable {heap : Heap} {a b c : InstanceRef}

section Likeness

variable {related : InstanceRef → InstanceRef → Prop}

theorem Resembles.symm (hsymm : ∀ a b, related a b → related b a)
    (h : heap.Resembles related a b) : heap.Resembles related b a := by
  rcases h with rfl | ⟨hclass, hfields⟩
  · exact .inl rfl
  · exact .inr ⟨hclass.symm, hfields.symm hsymm⟩

theorem Resembles.trans (htrans : ∀ a b c, related a b → related b c → related a c)
    (h : heap.Resembles related a b) (hnext : heap.Resembles related b c) :
    heap.Resembles related a c := by
  rcases h with rfl | ⟨hclass, hfields⟩
  · exact hnext
  · rcases hnext with rfl | ⟨hclass', hfields'⟩
    · exact .inr ⟨hclass, hfields⟩
    · exact .inr ⟨hclass.trans hclass', hfields.trans htrans hfields'⟩

variable (heap) in
/-- Two instances cannot be told apart. -/
def Alike (a b : InstanceRef) : Prop :=
  ∀ steps, heap.AlikeFor steps a b

theorem Alike.refl (a : InstanceRef) : heap.Alike a a := by
  intro steps
  cases steps with
  | zero => trivial
  | succ steps => exact .inl rfl

theorem AlikeFor.symm {steps : Nat} (h : heap.AlikeFor steps a b) : heap.AlikeFor steps b a := by
  induction steps generalizing a b with
  | zero => trivial
  | succ steps ih => exact Resembles.symm (fun _ _ => ih) h

theorem AlikeFor.trans {steps : Nat} (h : heap.AlikeFor steps a b)
    (hnext : heap.AlikeFor steps b c) : heap.AlikeFor steps a c := by
  induction steps generalizing a b c with
  | zero => trivial
  | succ steps ih => exact Resembles.trans (fun _ _ _ => ih) h hnext

theorem Alike.classRef_eq (h : heap.Alike a b) :
    (heap.instanceInfo a).classRef = (heap.instanceInfo b).classRef := by
  rcases isBisimulation_alike a b h with rfl | ⟨hclass, _⟩
  · rfl
  · exact hclass

/-- Values are equal if the instances among them cannot be told apart. -/
theorem equal_iff_equalUpTo_alike (listing : Listing) {x y : Value} :
    heap.equal listing x y = true ↔ x.EqualUpTo heap.Alike y := by
  obtain ⟨answer, hanswer⟩ := Option.isSome_iff_exists.mp (heap.isSome_equal? listing x y)
  rw [equal, hanswer, Option.getD_some]
  constructor
  · rintro rfl
    refine (Value.equalBy?_eq_some_true_iff.mp hanswer).mono fun a b hinstances steps => ?_
    exact alikeFor_of_equalInstances? (fun _ hpair => absurd hpair List.not_mem_nil) hinstances
  · intro hvalues
    by_contra hfalse
    rw [Bool.not_eq_true] at hfalse
    subst hfalse
    refine Value.not_equalUpTo_of_equalBy? hanswer (hvalues.mono fun a b halike => ?_)
    exact equalInstances?_ne_some_false isBisimulation_alike halike

theorem matchesType_eq {x y : Value} (h : x.EqualUpTo heap.Alike y) (name : String) :
    heap.matchesType x name = heap.matchesType y name := by
  have htype := h.typeName_eq
  cases x <;> cases y <;> try first | rfl | exact h.elim
  case instanceObject.instanceObject a b =>
    have hclass := Alike.classRef_eq h
    rw [matchesType, matchesType, htype, hclass]

end Likeness

section Texts

/-- Numbers that are equal have one text. -/
theorem numberText_eq {x y : Float} (h : (x == y) = true) :
    Value.numberText x = Value.numberText y := by
  rcases eq_or_zeros_of_beq h with rfl | ⟨hx, hy⟩
  · rfl
  · rw [Value.numberText, Value.numberText, if_pos hx, if_pos hy]

/-- The texts of two values are equal if they are one value or equal ones, and the instances
among them have equal texts. -/
theorem displayWith?_eq {first second : InstanceRef → Option String} {x y : Value}
    (h : x = y ∨ x.EqualUpTo heap.Alike y)
    (htexts : ∀ a b, x = .instanceObject a → y = .instanceObject b → heap.Alike a b →
      first a = second b) :
    heap.displayWith? first x = heap.displayWith? second y := by
  rcases h with rfl | h
  · cases x with
    | instanceObject ref => exact htexts ref ref rfl rfl (.refl ref)
    | _ => rfl
  · cases x <;> cases y <;> try first | exact h.elim | rw [show _ = _ from h]; rfl
    case number.number x y => rw [displayWith?, displayWith?, numberText_eq h]
    case instanceObject.instanceObject a b => exact htexts a b rfl rfl h
    case unit.unit => rfl

theorem mapM_eq_of_forall₂ {α β γ : Type} {items : List α} {others : List β}
    {write : α → Option γ} {rewrite : β → Option γ}
    (h : List.Forall₂ (fun item other => write item = rewrite other) items others) :
    items.mapM write = others.mapM rewrite := by
  induction h with
  | nil => rfl
  | cons hitem _ ih => rw [List.mapM_cons, List.mapM_cons, hitem, ih]

variable (heap) in
/-- An instance reaches none of those that are listed, and none that reaches itself. -/
structure ClearOf (outer : List InstanceRef) (ref : InstanceRef) : Prop where
  not_reached : ∀ other ∈ outer, ¬ Relation.ReflTransGen heap.RefersTo ref other
  isAcyclic : heap.IsAcyclic (.instanceObject ref)

variable {outer others : List InstanceRef}

theorem ClearOf.not_mem (h : heap.ClearOf outer a) : a ∉ outer :=
  fun hmem => h.not_reached a hmem .refl

/-- With an instance listed, its fields are clear of what is listed. -/
theorem ClearOf.field (h : heap.ClearOf outer a) {next : InstanceRef}
    (hfield : heap.RefersTo a next) : heap.ClearOf (a :: outer) next where
  not_reached other hmem hreaches := by
    rcases List.mem_cons.mp hmem with rfl | hmem
    · exact h.isAcyclic other ⟨other, rfl, .refl⟩ (.head' hfield hreaches)
    · exact h.not_reached other hmem (.head hfield hreaches)
  isAcyclic := by
    rintro ref ⟨first, hfirst, hreaches⟩
    cases hfirst
    exact h.isAcyclic ref ⟨a, rfl, .head hfield hreaches⟩

/-- The fields of instances that cannot be told apart go in pairs. -/
theorem Alike.forall₂_fields (h : heap.Alike a b) :
    List.Forall₂ (fun field other => field.1 = other.1 ∧
        (field.2 = other.2 ∨ field.2.EqualUpTo heap.Alike other.2))
      (heap.instanceInfo a).fields.entries (heap.instanceInfo b).fields.entries := by
  rcases isBisimulation_alike a b h with rfl | ⟨_, hnames, hvalues⟩
  · exact List.forall₂_same.mpr fun _ _ => ⟨rfl, .inl rfl⟩
  · apply (Table.forall₂_entries hnames hvalues).imp
    rintro field other ⟨hname, hvalue⟩
    exact ⟨hname, .inr hvalue⟩

/-- Instances that cannot be told apart have one text, if no mark can occur in it. -/
theorem displayInstance?_eq (bound : Nat) (h : heap.Alike a b) (ha : heap.ClearOf outer a)
    (hb : heap.ClearOf others b) :
    heap.displayInstance? bound outer a = heap.displayInstance? bound others b := by
  induction bound generalizing outer others a b with
  | zero => rfl
  | succ bound ih =>
      rw [displayInstance?_succ, displayInstance?_succ, if_neg ha.not_mem, if_neg hb.not_mem]
      have hopened : heap.openedText a = heap.openedText b := by
        funext fields
        rw [openedText, openedText, h.classRef_eq]
      have hfields := h.forall₂_fields
      rw [hopened, mapM_eq_of_forall₂]
      rw [List.forall₂_iff_zip] at hfields ⊢
      refine ⟨hfields.1, fun {field other} hmem => ?_⟩
      obtain ⟨hname, hvalue⟩ := hfields.2 hmem
      obtain ⟨hfield, hother⟩ := List.of_mem_zip hmem
      have htext : heap.displayWith? (heap.displayInstance? bound (a :: outer)) field.2 =
          heap.displayWith? (heap.displayInstance? bound (b :: others)) other.2 := by
        apply displayWith?_eq hvalue
        intro next next' hnext hnext' halike
        have hrefers : heap.RefersTo a next := ⟨field.1, hnext ▸ Table.get?_of_mem_entries hfield⟩
        have hrefers' : heap.RefersTo b next' :=
          ⟨other.1, hnext' ▸ Table.get?_of_mem_entries hother⟩
        exact ih halike (ha.field hrefers) (hb.field hrefers')
      rw [fieldText?, fieldText?, hname, htext]

theorem display_eq_of_equalUpTo {x y : Value} (h : x.EqualUpTo heap.Alike y)
    (hx : heap.IsAcyclic x) (hy : heap.IsAcyclic y) : heap.display x = heap.display y := by
  have htexts : heap.display? x = heap.display? y := by
    apply displayWith?_eq (.inr h)
    rintro a b rfl rfl halike
    have hnothing (ref : InstanceRef) :
        ∀ other ∈ ([] : List InstanceRef), ¬ Relation.ReflTransGen heap.RefersTo ref other :=
      fun other hmem => absurd hmem List.not_mem_nil
    exact displayInstance?_eq _ halike ⟨hnothing a, hx⟩ ⟨hnothing b, hy⟩
  rw [display, display, htexts]

end Texts

/-- Equality of values is symmetric and transitive, and only what is not a number is not
equal to itself. Equal values have the same type, the same truth and the same type names, and
without circles they have the same text. -/
theorem equal_is_congruence (heap : Heap) (listing : Listing) :
    (∀ x y, heap.equal listing x y = true → heap.equal listing y x = true) ∧
    (∀ x y z, heap.equal listing x y = true → heap.equal listing y z = true →
      heap.equal listing x z = true) ∧
    (∀ x, heap.equal listing x x = true ↔
      ∀ number, x = .number number → number.isNaN = false) ∧
    ∀ x y, heap.equal listing x y = true →
      x.typeName = y.typeName ∧ x.isTruthy = y.isTruthy ∧
      (∀ name, heap.matchesType x name = heap.matchesType y name) ∧
      (heap.IsAcyclic x → heap.IsAcyclic y → heap.display x = heap.display y) := by
  simp only [equal_iff_equalUpTo_alike listing]
  refine ⟨fun x y h => ?_, fun x y z h hnext => ?_, fun x => ?_, fun x y h => ?_⟩
  · exact h.symm fun _ _ halike steps => (halike steps).symm
  · exact h.trans (fun _ _ _ halike hlater steps => (halike steps).trans (hlater steps)) hnext
  · exact Value.equalUpTo_self_iff .refl
  · exact ⟨h.typeName_eq, h.isTruthy_eq, matchesType_eq h, display_eq_of_equalUpTo h⟩

/-- Instances that have the two zeros and what is not a number, and two circles, one of
which is twice as long as the other. -/
def zerosAndCircles : Heap where
  forest := .empty
  procedures := #[]
  classes := #[⟨"甲", none, [], ∅, ∅, ⟨0⟩⟩]
  instances := #[⟨⟨0⟩, .ofList [("x", .number 0)]⟩, ⟨⟨0⟩, .ofList [("x", .number (-0))]⟩,
    ⟨⟨0⟩, .ofList [("x", .number (0 / 0))]⟩, ⟨⟨0⟩, .ofList [("n", .instanceObject ⟨3⟩)]⟩,
    ⟨⟨0⟩, .ofList [("n", .instanceObject ⟨5⟩)]⟩, ⟨⟨0⟩, .ofList [("n", .instanceObject ⟨4⟩)]⟩]
  enums := #[]

-- Circles are what the texts of equal values can differ by.
example : zerosAndCircles.equal .byName (.instanceObject ⟨3⟩) (.instanceObject ⟨4⟩) = true ∧
    zerosAndCircles.display (.instanceObject ⟨3⟩) ≠
      zerosAndCircles.display (.instanceObject ⟨4⟩) := by
  decide +kernel

theorem equal_is_congruence_zerosAndCircles :
    zerosAndCircles.equal .byName (.instanceObject ⟨0⟩) (.instanceObject ⟨1⟩) = true ∧
    zerosAndCircles.IsAcyclic (.instanceObject ⟨0⟩) ∧
    zerosAndCircles.IsAcyclic (.instanceObject ⟨1⟩) ∧
    zerosAndCircles.display (.instanceObject ⟨0⟩) =
      zerosAndCircles.display (.instanceObject ⟨1⟩) ∧
    zerosAndCircles.equal .byName (.instanceObject ⟨2⟩) (.instanceObject ⟨2⟩) = true ∧
    zerosAndCircles.equal .byName (.number (0 / 0)) (.number (0 / 0)) = false ∧
    zerosAndCircles.equal .byName (.instanceObject ⟨4⟩) (.instanceObject ⟨3⟩) = true := by
  have hacyclic (ref : InstanceRef) (field : String × Value)
      (hentries : (zerosAndCircles.instanceInfo ref).fields.entries = [field])
      (hplain : ∀ other, field.2 ≠ .instanceObject other) :
      zerosAndCircles.IsAcyclic (.instanceObject ref) := by
    have hnone (other : InstanceRef) : ¬ zerosAndCircles.RefersTo ref other := by
      rintro ⟨name, hname⟩
      have hmem := Table.mem_entries_of_get? hname
      rw [hentries, List.mem_singleton] at hmem
      exact hplain other (hmem ▸ rfl)
    rintro last ⟨first, hfirst, hreaches⟩ hcircle
    cases hfirst
    obtain ⟨next, hnext, _⟩ := Relation.TransGen.head'_iff.mp (.trans_right hreaches hcircle)
    exact hnone next hnext
  have hfirst := hacyclic ⟨0⟩ ("x", .number 0) (by decide +kernel) fun other h => by cases h
  have hsecond := hacyclic ⟨1⟩ ("x", .number (-0)) (by decide +kernel) fun other h => by cases h
  obtain ⟨hsymm, _, hself, hcongr⟩ := equal_is_congruence zerosAndCircles .byName
  have hzeros :
      zerosAndCircles.equal .byName (.instanceObject ⟨0⟩) (.instanceObject ⟨1⟩) = true := by
    decide +kernel
  have hcircles :
      zerosAndCircles.equal .byName (.instanceObject ⟨3⟩) (.instanceObject ⟨4⟩) = true := by
    decide +kernel
  refine ⟨hzeros, hfirst, hsecond, ?_, ?_, ?_, hsymm _ _ hcircles⟩
  · exact (hcongr _ _ hzeros).2.2.2 hfirst hsecond
  · exact (hself _).mpr fun number h => by cases h
  · rw [← Bool.not_eq_true, hself]
    intro h
    exact absurd (h _ rfl) (by decide +kernel)

end Heap

end Wabun
