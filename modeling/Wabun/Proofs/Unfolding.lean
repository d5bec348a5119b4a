import Mathlib.Data.List.Forall2
import Mathlib.Logic.Relation
import Wabun.Proofs.Bisimulation

/-!
The text of a value is the text of its unfolding. An unfolding is a finite tree in
which an instance is opened field by field, and a place in it is a path of field
names. What stands at a place is settled by the instances on the way there: an
instance is opened unless it is among them, and a mark stands for it if it is. So
an instance that several fields share is opened at each of them, and without a
circle of fields there is no mark.
-/

namespace Wabun

/-- A value with all that its text shows of it. -/
inductive Unfolding where
  /-- a value that is no instance -/
  | plain (value : Value)
  /-- an instance that is opened around this place already -/
  | mark (ref : InstanceRef)
  | opened (ref : InstanceRef) (fields : List (String × Unfolding))

namespace Heap

/-- The text of a value that is no instance. -/
def plainText (heap : Heap) (value : Value) : String :=
  (heap.displayWith? (fun _ => none) value).getD ""

/-- The text of an instance, given the texts of its fields. -/
def openedText (heap : Heap) (ref : InstanceRef) (fields : List String) : String :=
  (heap.classInfo (heap.instanceInfo ref).classRef).name ++ " \x7b" ++ ",".intercalate fields ++
    (if fields.isEmpty then "\x7d" else " \x7d")

/-- The text of a field, given the text of instances. -/
def fieldText? (heap : Heap) (instanceText : InstanceRef → Option String)
    (field : String × Value) : Option String :=
  (heap.displayWith? instanceText field.2).map fun text => " " ++ field.1 ++ ": " ++ text

/-- One step of the text of an instance. -/
theorem displayInstance?_succ (heap : Heap) (bound : Nat) (outer : List InstanceRef)
    (ref : InstanceRef) :
    heap.displayInstance? (bound + 1) outer ref =
      if ref ∈ outer then some cycleMark
      else ((heap.instanceInfo ref).fields.entries.mapM
        (heap.fieldText? (heap.displayInstance? bound (ref :: outer)))).map
          (heap.openedText ref) := by
  by_cases href : ref ∈ outer
  · simp [displayInstance?, href]
  · have hfield : heap.fieldText? (heap.displayInstance? bound (ref :: outer)) =
        fun field => do
          let text ← heap.displayWith? (heap.displayInstance? bound (ref :: outer)) field.2
          return " " ++ field.1 ++ ": " ++ text := by
      funext field
      rw [fieldText?]
      cases heap.displayWith? (heap.displayInstance? bound (ref :: outer)) field.2 <;> rfl
    have hlisted : outer.contains ref = false := by simpa using href
    rw [displayInstance?, hlisted, if_neg Bool.false_ne_true, if_neg href, hfield]
    exact Option.map_eq_bind.symm

end Heap

namespace Unfolding

mutual

def text (heap : Heap) : Unfolding → String
  | plain value => heap.plainText value
  | mark _ => "<循環>"
  | opened ref fields => heap.openedText ref (fieldTexts heap fields)

def fieldTexts (heap : Heap) : List (String × Unfolding) → List String
  | [] => []
  | (name, tree) :: rest => (" " ++ name ++ ": " ++ text heap tree) :: fieldTexts heap rest

end

/-- The part of an unfolding that a path of field names leads to. -/
def at? : Unfolding → List String → Option Unfolding
  | tree, [] => some tree
  | opened _ fields, name :: path => (fields.lookup name).bind fun tree => tree.at? path
  | _, _ :: _ => none

/-- What is seen of an unfolding at one place. -/
inductive Face where
  | plain (value : Value)
  | mark (ref : InstanceRef)
  /-- an instance with the names of its fields, in the order of the text -/
  | opened (ref : InstanceRef) (names : List String)

def face : Unfolding → Face
  | plain value => .plain value
  | mark ref => .mark ref
  | opened ref fields => .opened ref (fields.map Prod.fst)

theorem fieldTexts_eq_map (heap : Heap) (fields : List (String × Unfolding)) :
    fieldTexts heap fields =
      fields.map fun field => " " ++ field.1 ++ ": " ++ field.2.text heap := by
  induction fields with
  | nil => rfl
  | cons field rest ih =>
      rw [fieldTexts, ih]
      rfl

end Unfolding

section Lists

variable {α β γ : Type}

/-- What can be written item by item can be written as a whole. -/
theorem exists_forall₂_mapM {items : List α} {write : α → Option β} {render : γ → β}
    {fits : α → γ → Prop}
    (h : ∀ item ∈ items, ∃ part, write item = some (render part) ∧ fits item part) :
    ∃ parts, items.mapM write = some (parts.map render) ∧ List.Forall₂ fits items parts := by
  induction items with
  | nil => exact ⟨[], rfl, .nil⟩
  | cons item rest ih =>
      obtain ⟨part, hwrite, hfits⟩ := h item List.mem_cons_self
      obtain ⟨parts, hrest, hparts⟩ := ih fun other hmem => h other (List.mem_cons_of_mem item hmem)
      refine ⟨part :: parts, ?_, .cons hfits hparts⟩
      rw [List.mapM_cons, hwrite, hrest]
      rfl

/-- Writing that gives an answer gives the same answer where every item does. -/
theorem mapM_eq_some_of_imp {items : List α} {write rewrite : α → Option β} {texts : List β}
    (himp : ∀ item text, write item = some text → rewrite item = some text)
    (h : items.mapM write = some texts) : items.mapM rewrite = some texts := by
  induction items generalizing texts with
  | nil => exact h
  | cons item rest ih =>
      simp only [List.mapM_cons, Option.bind_eq_bind, Option.bind_eq_some_iff] at h ⊢
      obtain ⟨text, htext, others, hothers, hall⟩ := h
      exact ⟨text, himp item text htext, others, ih hothers, hall⟩

theorem map_fst_of_forall₂ {first : List (String × α)} {second : List (String × β)}
    {fits : α → β → Prop}
    (h : List.Forall₂ (fun a b => b.1 = a.1 ∧ fits a.2 b.2) first second) :
    second.map Prod.fst = first.map Prod.fst := by
  induction h with
  | nil => rfl
  | cons hpair _ ih => rw [List.map_cons, List.map_cons, hpair.1, ih]

/-- Lists of entries that fit each other find the same names. -/
theorem lookup_of_forall₂ {first : List (String × α)} {second : List (String × β)}
    {fits : α → β → Prop}
    (h : List.Forall₂ (fun a b => b.1 = a.1 ∧ fits a.2 b.2) first second) (name : String) :
    first.lookup name = none ∧ second.lookup name = none ∨
      ∃ a b, first.lookup name = some a ∧ second.lookup name = some b ∧ fits a b := by
  induction h with
  | nil => exact .inl ⟨rfl, rfl⟩
  | @cons a b _ _ hpair _ ih =>
      obtain ⟨_, value⟩ := a
      obtain ⟨key, other⟩ := b
      obtain ⟨rfl, hfits⟩ := hpair
      by_cases hname : name = key
      · subst hname
        exact .inr ⟨value, other, List.lookup_cons_self, List.lookup_cons_self, hfits⟩
      · rwa [Table.lookup_cons_of_ne hname, Table.lookup_cons_of_ne hname]

end Lists

namespace Heap

variable (heap : Heap)

/-- The value that a path of field names leads to, and the instances on the way there,
the first one first. -/
def follow? : Value → List String → Option (List InstanceRef × Value)
  | value, [] => some ([], value)
  | .instanceObject ref, name :: path =>
    ((heap.instanceInfo ref).fields.get? name).bind fun value =>
      (follow? value path).map fun found => (ref :: found.1, found.2)
  | _, _ :: _ => none

/-- What the text shows of a value inside the text of these instances. -/
def face (ancestors : List InstanceRef) : Value → Unfolding.Face
  | .instanceObject ref =>
    if ref ∈ ancestors then .mark ref else .opened ref (heap.instanceInfo ref).fields.names
  | value => .plain value

/-- What the text shows where a path leads to. Nothing is shown behind an instance that
is met twice on the way. -/
def faceAt? (outer : List InstanceRef) (value : Value) (path : List String) :
    Option Unfolding.Face :=
  (heap.follow? value path).bind fun found =>
    if (outer ++ found.1).Nodup then some (heap.face (outer ++ found.1) found.2) else none

/-- The tree shows, place by place, what is to be shown of a value inside the text of
these instances. -/
def Unfolds (outer : List InstanceRef) (value : Value) (tree : Unfolding) : Prop :=
  ∀ path, (tree.at? path).map Unfolding.face = heap.faceAt? outer value path

variable {heap} {outer : List InstanceRef} {ref : InstanceRef}

theorem unfolds_plain (houter : outer.Nodup) {value : Value}
    (hvalue : ∀ ref, value ≠ .instanceObject ref) : heap.Unfolds outer value (.plain value) := by
  intro path
  cases path with
  | nil =>
      cases value with
      | instanceObject ref => exact absurd rfl (hvalue ref)
      | _ => simp [Unfolding.at?, Unfolding.face, faceAt?, follow?, face, houter]
  | cons name path =>
      cases value with
      | instanceObject ref => exact absurd rfl (hvalue ref)
      | _ => rfl

/-- What is shown of a field is what is shown behind its instance. -/
theorem faceAt?_cons {name : String} {value : Value}
    (hvalue : (heap.instanceInfo ref).fields.get? name = some value) (path : List String) :
    heap.faceAt? outer (.instanceObject ref) (name :: path) =
      heap.faceAt? (ref :: outer) value path := by
  rw [faceAt?, follow?, hvalue, Option.bind_some, faceAt?]
  cases heap.follow? value path with
  | none => rfl
  | some found =>
      have hperm : (outer ++ ref :: found.1).Perm (ref :: outer ++ found.1) := List.perm_middle
      have hface : heap.face (outer ++ ref :: found.1) found.2 =
          heap.face (ref :: outer ++ found.1) found.2 := by
        cases found.2 with
        | instanceObject last => simp only [face, hperm.mem_iff]
        | _ => rfl
      simp only [Option.map_some, Option.bind_some, hperm.nodup_iff, hface]

/-- Nothing is shown behind an instance that was met twice. -/
theorem faceAt?_eq_none (h : ¬ outer.Nodup) (value : Value) (path : List String) :
    heap.faceAt? outer value path = none := by
  have hnever (way : List InstanceRef) : ¬ (outer ++ way).Nodup :=
    fun hway => h (List.nodup_append.mp hway).1
  simp [faceAt?, hnever]

theorem faceAt?_cons_of_get?_eq_none {name : String}
    (h : (heap.instanceInfo ref).fields.get? name = none) (path : List String) :
    heap.faceAt? outer (.instanceObject ref) (name :: path) = none := by
  rw [faceAt?, follow?, h]
  rfl

theorem unfolds_mark (houter : outer.Nodup) (href : ref ∈ outer) :
    heap.Unfolds outer (.instanceObject ref) (.mark ref) := by
  intro path
  cases path with
  | nil => simp [Unfolding.at?, Unfolding.face, faceAt?, follow?, face, houter, href]
  | cons name path =>
      cases hvalue : (heap.instanceInfo ref).fields.get? name with
      | none =>
          rw [faceAt?_cons_of_get?_eq_none hvalue]
          rfl
      | some value =>
          have htwice : ¬ (ref :: outer).Nodup := fun h => (List.nodup_cons.mp h).1 href
          rw [faceAt?_cons hvalue, faceAt?_eq_none htwice]
          rfl

theorem unfolds_opened (houter : outer.Nodup) (href : ref ∉ outer)
    {fields : List (String × Unfolding)}
    (hfields : List.Forall₂ (fun field part => part.1 = field.1 ∧
      heap.Unfolds (ref :: outer) field.2 part.2) (heap.instanceInfo ref).fields.entries fields) :
    heap.Unfolds outer (.instanceObject ref) (.opened ref fields) := by
  intro path
  cases path with
  | nil =>
      have hnames : fields.map Prod.fst = (heap.instanceInfo ref).fields.names :=
        map_fst_of_forall₂ hfields
      simp [Unfolding.at?, Unfolding.face, faceAt?, follow?, face, houter, href, hnames]
  | cons name path =>
      rw [Unfolding.at?]
      rcases lookup_of_forall₂ hfields name with ⟨hnone, hmissing⟩ | ⟨value, tree, hvalue, htree, h⟩
      · rw [hmissing, faceAt?_cons_of_get?_eq_none hnone]
        rfl
      · rw [htree, faceAt?_cons hvalue]
        exact h path

/-- A value has an unfolding if the instances have. -/
theorem exists_unfolding_of_instances (houter : outer.Nodup)
    {instanceText : InstanceRef → Option String}
    (h : ∀ ref, ∃ tree, instanceText ref = some (tree.text heap) ∧
      heap.Unfolds outer (.instanceObject ref) tree) (value : Value) :
    ∃ tree, heap.displayWith? instanceText value = some (tree.text heap) ∧
      heap.Unfolds outer value tree := by
  cases value with
  | instanceObject ref => exact h ref
  | _ => exact ⟨.plain _, rfl, unfolds_plain houter fun ref hne => by cases hne⟩

/-- The text of an instance is the text of an unfolding, by induction on how many more
instances can be listed. -/
theorem exists_unfolding_of_instance (bound : Nat) (outer : List InstanceRef) (ref : InstanceRef)
    (htrail : Trail heap.instanceRefs outer) (hbound : heap.instances.size < outer.length + bound) :
    ∃ tree, heap.displayInstance? bound outer ref = some (tree.text heap) ∧
      heap.Unfolds outer (.instanceObject ref) tree := by
  induction bound generalizing outer ref with
  | zero =>
      have hlength := htrail.length_le
      rw [length_instanceRefs] at hlength
      omega
  | succ bound ih =>
      rw [displayInstance?_succ]
      by_cases href : ref ∈ outer
      · rw [if_pos href]
        exact ⟨.mark ref, rfl, unfolds_mark htrail.nodup href⟩
      · have hparts : ∀ field ∈ (heap.instanceInfo ref).fields.entries,
            ∃ part : String × Unfolding,
              heap.fieldText? (heap.displayInstance? bound (ref :: outer)) field =
                some (" " ++ part.1 ++ ": " ++ part.2.text heap) ∧
              (part.1 = field.1 ∧ heap.Unfolds (ref :: outer) field.2 part.2) := by
          intro field hfield
          have hnext := htrail.cons (heap.mem_instanceRefs hfield) href
          have hmore : heap.instances.size < (ref :: outer).length + bound := by
            rw [List.length_cons]
            omega
          obtain ⟨tree, htext, htree⟩ :=
            exists_unfolding_of_instances hnext.nodup (fun inner => ih _ inner hnext hmore) field.2
          refine ⟨(field.1, tree), ?_, rfl, htree⟩
          rw [fieldText?, htext]
          rfl
        obtain ⟨fields, htexts, hfields⟩ := exists_forall₂_mapM hparts
        refine ⟨.opened ref fields, ?_, unfolds_opened htrail.nodup href hfields⟩
        rw [if_neg href, htexts, Unfolding.text, Unfolding.fieldTexts_eq_map]
        rfl

/-- The text of a value stays if the texts of instances stay that there are. -/
theorem displayWith?_of_imp {first second : InstanceRef → Option String}
    (himp : ∀ ref text, first ref = some text → second ref = some text) {value : Value}
    {text : String} (h : heap.displayWith? first value = some text) :
    heap.displayWith? second value = some text := by
  cases value with
  | instanceObject ref => exact himp ref text h
  | _ => exact h

/-- A larger bound leaves a text that there is as it is. -/
theorem displayInstance?_of_larger_bound {bound larger : Nat} (hle : bound ≤ larger) {text : String}
    (h : heap.displayInstance? bound outer ref = some text) :
    heap.displayInstance? larger outer ref = some text := by
  induction bound generalizing larger outer ref text with
  | zero => cases h
  | succ bound ih =>
      obtain ⟨larger, rfl⟩ : ∃ less, larger = less + 1 := ⟨larger - 1, by omega⟩
      rw [displayInstance?_succ] at h ⊢
      by_cases href : ref ∈ outer
      · rwa [if_pos href] at h ⊢
      · rw [if_neg href] at h ⊢
        obtain ⟨texts, htexts, hwhole⟩ := Option.map_eq_some_iff.mp h
        refine Option.map_eq_some_iff.mpr ⟨texts, mapM_eq_some_of_imp ?_ htexts, hwhole⟩
        intro field shown hfield
        obtain ⟨inner, hinner, hshown⟩ := Option.map_eq_some_iff.mp hfield
        have hle' : bound ≤ larger := by omega
        exact Option.map_eq_some_iff.mpr
          ⟨inner, displayWith?_of_imp (fun _ _ => ih hle') hinner, hshown⟩

section Circles

variable (heap) in
/-- An instance has a field that refers to another one. -/
def RefersTo (first second : InstanceRef) : Prop :=
  ∃ name, (heap.instanceInfo first).fields.get? name = some (.instanceObject second)

variable (heap) in
/-- The instances that can be reached from a value along fields. -/
def LeadsTo (value : Value) (ref : InstanceRef) : Prop :=
  ∃ first, value = .instanceObject first ∧ Relation.ReflTransGen heap.RefersTo first ref

variable (heap) in
/-- No instance that can be reached from the value can be reached from itself. -/
def IsAcyclic (value : Value) : Prop :=
  ∀ ref, heap.LeadsTo value ref → ¬ Relation.TransGen heap.RefersTo ref ref

/-- Each instance on the way to an instance reaches it. -/
theorem reaches_of_follow? {value : Value} {path : List String} {way : List InstanceRef}
    (h : heap.follow? value path = some (way, .instanceObject ref)) :
    heap.LeadsTo value ref ∧ ∀ other ∈ way, Relation.TransGen heap.RefersTo other ref := by
  induction path generalizing value way with
  | nil =>
      obtain ⟨rfl, rfl⟩ : way = [] ∧ value = .instanceObject ref := by
        simpa [follow?, eq_comm] using h
      exact ⟨⟨ref, rfl, .refl⟩, fun other hmem => absurd hmem List.not_mem_nil⟩
  | cons name path ih =>
      cases value with
      | instanceObject first =>
          obtain ⟨field, hfield, hfound⟩ := Option.bind_eq_some_iff.mp h
          obtain ⟨⟨others, last⟩, hothers, hpair⟩ := Option.map_eq_some_iff.mp hfound
          obtain ⟨rfl, rfl⟩ : first :: others = way ∧ last = .instanceObject ref := by
            simpa using hpair
          obtain ⟨⟨second, rfl, hreaches⟩, hway⟩ := ih hothers
          have hfirst : heap.RefersTo first second := ⟨name, hfield⟩
          refine ⟨⟨first, rfl, .head hfirst hreaches⟩, ?_⟩
          intro other hmem
          rcases List.mem_cons.mp hmem with rfl | hmem
          · exact .head' hfirst hreaches
          · exact hway other hmem
      | _ => cases h

/-- A mark stands only for an instance that reaches itself. -/
theorem no_mark_of_isAcyclic {value : Value} {tree : Unfolding} (htree : heap.Unfolds [] value tree)
    (hvalue : heap.IsAcyclic value) (path : List String) (ref : InstanceRef) :
    tree.at? path ≠ some (.mark ref) := by
  intro hmark
  have hface : heap.faceAt? [] value path = some (.mark ref) := by
    rw [← htree path, hmark]
    rfl
  obtain ⟨⟨way, last⟩, hfound, hshown⟩ := Option.bind_eq_some_iff.mp hface
  rw [List.nil_append] at hshown
  split at hshown
  · cases last with
    | instanceObject other =>
        simp only [face, Option.some.injEq] at hshown
        split at hshown
        · next hother =>
            cases hshown
            obtain ⟨hleads, hway⟩ := reaches_of_follow? hfound
            exact hvalue ref hleads (hway ref hother)
        · cases hshown
    | _ => cases hshown
  · cases hshown

end Circles

/-- The fields of an instance are shown in the order of their names. -/
theorem names_sorted_of_faceAt? {value : Value} {path names : List String}
    (h : heap.faceAt? outer value path = some (.opened ref names)) :
    names.Pairwise fun first second => first < second := by
  obtain ⟨⟨way, last⟩, _, hshown⟩ := Option.bind_eq_some_iff.mp h
  split at hshown
  · cases last with
    | instanceObject other =>
        simp only [face, Option.some.injEq] at hshown
        split at hshown
        · cases hshown
        · cases hshown
          exact List.pairwise_map.mpr (heap.instanceInfo ref).fields.sorted
    | _ => cases hshown
  · cases hshown

/-- There is a text for every value, and it is the text of the unfolding, for every bound that
is large enough: at each place stands an instance with its fields in the order of their names,
or a mark if the instance is among those on the way there. Without circles there is no mark. -/
theorem display_is_text_of_unfolding (heap : Heap) (value : Value) :
    ∃ tree : Unfolding,
      (∀ bound, heap.instances.size < bound →
        heap.displayWith? (heap.displayInstance? bound []) value = some (tree.text heap)) ∧
      heap.display value = tree.text heap ∧
      heap.Unfolds [] value tree ∧
      (∀ path ref names, (tree.at? path).map Unfolding.face = some (.opened ref names) →
        names.Pairwise fun first second => first < second) ∧
      (heap.IsAcyclic value → ∀ path ref, tree.at? path ≠ some (.mark ref)) := by
  obtain ⟨tree, htext, htree⟩ := exists_unfolding_of_instances .nil
    (fun ref => heap.exists_unfolding_of_instance (heap.instances.size + 1) [] ref (.nil _)
      (by simp)) value
  refine ⟨tree, fun bound hbound => ?_, ?_, htree, fun path ref names hface => ?_, fun hvalue => ?_⟩
  · exact displayWith?_of_imp (fun ref text => displayInstance?_of_larger_bound hbound) htext
  · rw [display, display?, htext, Option.getD_some]
  · rw [htree path] at hface
    exact names_sorted_of_faceAt? hface
  · exact no_mark_of_isAcyclic htree hvalue

/-- An instance with two fields that share another one, and an instance with a field that
is the instance itself. -/
def sharedAndCircular : Heap where
  forest := .empty
  procedures := #[]
  classes := #[⟨"甲", none, [], ∅, ∅, ⟨0⟩⟩]
  instances := #[⟨⟨0⟩, .ofList [("乙", .instanceObject ⟨1⟩), ("a", .instanceObject ⟨1⟩)]⟩,
    ⟨⟨0⟩, .ofList [("x", .text "y")]⟩, ⟨⟨0⟩, .ofList [("己", .instanceObject ⟨2⟩)]⟩]
  enums := #[]

example : sharedAndCircular.display (.instanceObject ⟨0⟩) =
    "甲 \x7b a: 甲 \x7b x: y \x7d, 乙: 甲 \x7b x: y \x7d \x7d" := by
  decide +kernel

example : sharedAndCircular.display (.instanceObject ⟨2⟩) = "甲 \x7b 己: <循環> \x7d" := by
  decide +kernel

theorem display_is_text_of_unfolding_sharedAndCircular :
    sharedAndCircular.IsAcyclic (.instanceObject ⟨0⟩) ∧
    (∃ tree : Unfolding, sharedAndCircular.display (.instanceObject ⟨0⟩) =
        tree.text sharedAndCircular ∧
      (tree.at? ["a"]).map Unfolding.face = some (.opened ⟨1⟩ ["x"]) ∧
      (tree.at? ["乙"]).map Unfolding.face = some (.opened ⟨1⟩ ["x"]) ∧
      ∀ path ref, tree.at? path ≠ some (.mark ref)) ∧
    ∃ tree : Unfolding, sharedAndCircular.display (.instanceObject ⟨2⟩) =
        tree.text sharedAndCircular ∧
      (tree.at? ["己"]).map Unfolding.face = some (.mark ⟨2⟩) := by
  have hfirst (ref : InstanceRef) (h : sharedAndCircular.RefersTo ⟨0⟩ ref) : ref = ⟨1⟩ := by
    obtain ⟨name, hname⟩ := h
    have hmem := Table.mem_entries_of_get? hname
    have hentries : (sharedAndCircular.instanceInfo ⟨0⟩).fields.entries =
        [("a", .instanceObject ⟨1⟩), ("乙", .instanceObject ⟨1⟩)] := by decide +kernel
    simp only [hentries, List.mem_cons, List.not_mem_nil, Prod.mk.injEq,
      Value.instanceObject.injEq, or_false] at hmem
    exact hmem.elim And.right And.right
  have hsecond (ref : InstanceRef) : ¬ sharedAndCircular.RefersTo ⟨1⟩ ref := by
    rintro ⟨name, hname⟩
    have hmem := Table.mem_entries_of_get? hname
    have hentries : (sharedAndCircular.instanceInfo ⟨1⟩).fields.entries = [("x", .text "y")] := by
      decide +kernel
    simp [hentries] at hmem
  have hends (ref : InstanceRef) : ¬ Relation.TransGen sharedAndCircular.RefersTo ⟨1⟩ ref := by
    intro h
    obtain ⟨next, hnext, _⟩ := Relation.TransGen.head'_iff.mp h
    exact hsecond next hnext
  have hacyclic : sharedAndCircular.IsAcyclic (.instanceObject ⟨0⟩) := by
    rintro ref ⟨first, hvalue, hreaches⟩ hcircle
    cases hvalue
    -- Only the second instance can be reached, and nothing can be reached from it.
    have hnotSecond : ref ≠ ⟨1⟩ := by
      rintro rfl
      exact hends _ hcircle
    obtain ⟨next, hnext, hback⟩ := Relation.TransGen.head'_iff.mp (.trans_right hreaches hcircle)
    cases hfirst next hnext
    rcases Relation.reflTransGen_iff_eq_or_transGen.mp hback with rfl | hlater
    · exact hnotSecond rfl
    · exact hends _ hlater
  obtain ⟨tree, _, htext, htree, _, hmarks⟩ :=
    display_is_text_of_unfolding sharedAndCircular (.instanceObject ⟨0⟩)
  obtain ⟨circle, _, hcircle, hunfolds, _⟩ :=
    display_is_text_of_unfolding sharedAndCircular (.instanceObject ⟨2⟩)
  refine ⟨hacyclic, ⟨tree, htext, ?_, ?_, hmarks hacyclic⟩, circle, hcircle, ?_⟩
  · rw [htree]
    rfl
  · rw [htree]
    rfl
  · rw [hunfolds]
    rfl

end Heap

end Wabun
