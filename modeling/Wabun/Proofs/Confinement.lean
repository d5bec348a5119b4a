import Wabun.Proofs.Discipline

/-!
Runs that keep to what they can come by. From a state on, that is whatever was made
since or is reached from the modules that had been loaded. It is a discipline to keep to
such objects, provided that one starts with them: to change no other one, to lead to no
other one, and neither to give nor to throw one. This is said here of the single effects.
-/

namespace Wabun

namespace State

/-- What code that is loaded from a state on can come by. -/
def Accessible (origin : State) (heap : Heap) (object : Object) : Prop :=
  origin.Reaches object ∨ ¬ origin.heap.Has object ∧ heap.Has object

def MayHold (origin : State) (heap : Heap) (value : Value) : Prop :=
  ∀ object ∈ value.object?, origin.Accessible heap object

def MayHoldAll (origin : State) (heap : Heap) (bindings : Table Value) : Prop :=
  ∀ binding ∈ bindings.entries, origin.MayHold heap binding.2

/-- Between the two states the objects that cannot be come by were left alone. -/
structure Confined (origin state : State) : Prop where
  grows : origin.heap.Grows state.heap
  closed : state.heap.Closed (origin.Accessible state.heap)
  agrees : ∀ object, origin.heap.Has object → ¬ origin.Reaches object →
    origin.heap.Agrees state.heap object
  cached : ∀ loaded ∈ state.modules.entries, origin.MayHoldAll state.heap loaded.2

variable {origin state final : State} {heap before after : Heap} {object target : Object}
  {value : Value}

theorem Accessible.mono (h : origin.Accessible before object) (hgrows : before.Grows after) :
    origin.Accessible after object :=
  h.imp id fun hnew => ⟨hnew.1, hgrows object hnew.2⟩

theorem MayHold.mono (h : origin.MayHold before value) (hgrows : before.Grows after) :
    origin.MayHold after value :=
  fun object hobject => (h object hobject).mono hgrows

theorem MayHold.of_accessible (hobject : value.object? = some object)
    (h : origin.Accessible heap object) : origin.MayHold heap value := by
  intro other hother
  obtain rfl : object = other := Option.some.inj (hobject.symm.trans hother)
  exact h

theorem MayHold.of_object? (h : value.object? = none) : origin.MayHold heap value := by
  intro object hobject
  rw [h] at hobject
  cases hobject

namespace Confined

/-- Only the heap and the loaded modules matter. -/
theorem of_same {other : State} (h : origin.Confined state) (hheap : other.heap = state.heap)
    (hmodules : other.modules = state.modules) : origin.Confined other where
  grows := hheap ▸ h.grows
  closed := hheap ▸ h.closed
  agrees := hheap ▸ h.agrees
  cached := by
    rw [hmodules, hheap]
    exact h.cached

theorem refl (origin : State) : origin.Confined origin where
  grows _ hhas := hhas
  closed := by
    rintro object other (hreaches | ⟨hnew, hhas⟩) hlink
    · exact .inl (.link hreaches hlink)
    · exact absurd hhas hnew
  agrees object _ _ := by cases object <;> rfl
  cached _ hloaded _ hentry object hobject := .inl (.cached hloaded hentry hobject)

/-- Another heap in which one accessible object was changed or made. -/
theorem change (h : origin.Confined state) (hchange : Heap.ChangesAt target state.heap heap)
    (htarget : origin.Accessible heap target)
    (hlinks : ∀ object, heap.Links target object → origin.Accessible heap object) :
    origin.Confined { state with heap } where
  grows := h.grows.trans hchange.grows
  closed := by
    refine hchange.closed h.closed (fun object hold => hold.mono hchange.grows) ?_ htarget hlinks
    rintro object (hreaches | ⟨hnew, hhas⟩) hne
    · exact .inl hreaches
    · exact .inr ⟨hnew, (hchange.has_cases object hhas).resolve_right hne⟩
  agrees object hhas hreaches := by
    -- The target is reached or new, and what is to be spared is neither.
    have hne : object ≠ target := by
      rintro rfl
      rcases htarget with htarget | ⟨hnew, _⟩
      · exact hreaches htarget
      · exact hnew hhas
    exact (h.agrees object hhas hreaches).trans (hchange.agrees object hne)
  cached loaded hloaded entry hentry := (h.cached loaded hloaded entry hentry).mono hchange.grows

/-- One accessible object was changed. -/
theorem passes_change (h : origin.Confined state)
    (hchange : Heap.ChangesAt target state.heap final.heap)
    (hmodules : final.modules = state.modules)
    (htarget : origin.Accessible state.heap target)
    (hlinks : ∀ object, final.heap.Links target object →
      state.heap.Links target object ∨ origin.Accessible state.heap object) :
    origin.Confined final ∧ state.heap.Grows final.heap := by
  have hchanged : origin.Confined { state with heap := final.heap } := by
    refine h.change hchange (htarget.mono hchange.grows) fun object hlink => ?_
    rcases hlinks object hlink with hlink | haccessible
    · exact (h.closed htarget hlink).mono hchange.grows
    · exact haccessible.mono hchange.grows
  exact ⟨hchanged.of_same rfl hmodules, hchange.grows⟩

/-- One object was made that leads to accessible ones. -/
theorem passes_make (h : origin.Confined state)
    (hchange : Heap.ChangesAt target state.heap final.heap)
    (hmodules : final.modules = state.modules) (hfresh : ¬ state.heap.Has target)
    (hmade : final.heap.Has target)
    (hlinks : ∀ object, final.heap.Links target object → origin.Accessible state.heap object) :
    (origin.Confined final ∧ state.heap.Grows final.heap) ∧
      origin.Accessible final.heap target := by
  have htarget : origin.Accessible final.heap target :=
    .inr ⟨fun hhas => hfresh (h.grows target hhas), hmade⟩
  have hchanged : origin.Confined { state with heap := final.heap } :=
    h.change hchange htarget fun object hlink => (hlinks object hlink).mono hchange.grows
  exact ⟨⟨hchanged.of_same rfl hmodules, hchange.grows⟩, htarget⟩

/-- What happens around a part of a run does not matter. -/
theorem passes_around {inner last : State} (h : origin.Confined final ∧ inner.heap.Grows final.heap)
    (hinner : inner.heap = state.heap) (hheap : last.heap = final.heap)
    (hmodules : last.modules = final.modules) :
    origin.Confined last ∧ state.heap.Grows last.heap := by
  rw [hheap, ← hinner]
  exact ⟨h.1.of_same hheap hmodules, h.2⟩

theorem makeScope (h : origin.Confined state) {scope : Scope} (hvars : scope.vars = ∅)
    (hparent : ∀ parent ∈ scope.parent, origin.Accessible state.heap (.scope parent)) :
    let made := (Run.makeScope scope).after state
    (origin.Confined made ∧ state.heap.Grows made.heap) ∧
      origin.Accessible made.heap (.scope ⟨state.heap.forest.size⟩) := by
  refine h.passes_make (.addScope state.heap scope) rfl (Nat.lt_irrefl _) ?_ fun object hlink => ?_
  · exact Nat.lt_of_lt_of_eq (Nat.lt_succ_self _) (Array.size_push scope).symm
  · rcases Heap.Links.of_addScope hlink with ⟨parent, hmem, rfl⟩ | ⟨entry, hmem, _⟩
    · exact hparent parent hmem
    · rw [hvars] at hmem
      cases hmem

theorem makeProcedure (h : origin.Confined state) {procedure : Procedure}
    (hclosure : origin.Accessible state.heap (.scope procedure.closure)) :
    let made := (Run.makeProcedure procedure).after state
    (origin.Confined made ∧ state.heap.Grows made.heap) ∧
      origin.Accessible made.heap (.procedure ⟨state.heap.procedures.size⟩) := by
  refine h.passes_make (.addProcedure state.heap procedure) rfl (Nat.lt_irrefl _) ?_ ?_
  · exact Nat.lt_of_lt_of_eq (Nat.lt_succ_self _) (Array.size_push procedure).symm
  · intro object hlink
    rw [Heap.Links.of_addProcedure hlink]
    exact hclosure

theorem makeClass (h : origin.Confined state) {info : ClassInfo}
    (hscope : origin.Accessible state.heap (.scope info.scope))
    (hparent : ∀ parent ∈ info.parent, origin.Accessible state.heap (.classObject parent))
    (hmethods : ∀ entry ∈ info.methods.entries,
      origin.Accessible state.heap (.procedure entry.2)) (hstatics : info.statics = ∅) :
    let made := (Run.make (·.addClass info)).after state
    (origin.Confined made ∧ state.heap.Grows made.heap) ∧
      origin.Accessible made.heap (.classObject ⟨state.heap.classes.size⟩) := by
  refine h.passes_make (.addClass state.heap info) rfl (Nat.lt_irrefl _) ?_ fun object hlink => ?_
  · exact Nat.lt_of_lt_of_eq (Nat.lt_succ_self _) (Array.size_push info).symm
  · rcases Heap.Links.of_addClass hlink with
      rfl | ⟨parent, hmem, rfl⟩ | ⟨entry, hmem, rfl⟩ | ⟨entry, hmem, rfl⟩
    · exact hscope
    · exact hparent parent hmem
    · exact hmethods entry hmem
    · rw [hstatics] at hmem
      cases hmem

theorem makeInstance (h : origin.Confined state) {ref : ClassRef}
    (hclass : origin.Accessible state.heap (.classObject ref)) :
    let made := (Run.make (·.addInstance ⟨ref, ∅⟩)).after state
    (origin.Confined made ∧ state.heap.Grows made.heap) ∧
      origin.Accessible made.heap (.instanceObject ⟨state.heap.instances.size⟩) := by
  refine h.passes_make (.addInstance state.heap _) rfl (Nat.lt_irrefl _) ?_ fun object hlink => ?_
  · exact Nat.lt_of_lt_of_eq (Nat.lt_succ_self _) (Array.size_push _).symm
  · rcases Heap.Links.of_addInstance hlink with ⟨entry, hmem, _⟩ | ⟨name, method, rfl, hfound⟩
    · cases hmem
    · exact h.closed.findMethod? hclass hfound

theorem define (h : origin.Confined state) {scope : ScopeRef} {name : String} {value : Value}
    (hscope : origin.Accessible state.heap (.scope scope))
    (hvalue : origin.MayHold state.heap value) :
    let final := (Run.define scope name value).after state
    origin.Confined final ∧ state.heap.Grows final.heap := by
  refine h.passes_change (.modifyScope state.heap scope _) rfl hscope fun object hlink => ?_
  exact (Heap.Links.of_define hlink).imp id (hvalue object)

end Confined

/-- To keep to what can be come by from a state on. -/
def confinement (origin : State) : Discipline where
  Frame := Unit
  inner := id
  Sound _ state := origin.Confined state
  Passes _ state final := origin.Confined final ∧ state.heap.Grows final.heap
  Later := Heap.Grows
  Knows := origin.MayHold
  KnowsClass heap ref := origin.Accessible heap (.classObject ref)
  Reads _ heap scope := origin.Accessible heap (.scope scope)
  Binds _ heap scope _ := origin.Accessible heap (.scope scope)
  sound_of_same := .of_same
  sound_inner := id
  refl h := ⟨h, .refl _⟩
  trans h h' := ⟨h'.1, h.2.trans h'.2⟩
  sound _ h := h.1
  later h := h.2
  later_refl := .refl
  later_trans := .trans
  knows_later := .mono
  knowsClass_later := .mono
  reads_later := .mono
  binds_later := .mono
  reads_inner := id
  binds_inner := id
  knows_plain := .of_object?
  class_of_knows h := h _ rfl
  lookUp h hscope hfound := h.closed.get? hscope hfound
  binding h hscope hmem _ hobject := h.closed hscope (.binding hmem hobject)
  closure {_ _ ref} h href := h.closed (href _ rfl) (.closure ref)
  environment {_ _ ref} h hclass := h.closed hclass (.environment ref)
  lineage h hclass hmem := h.closed.ancestry hclass _ (List.mem_reverse.mp hmem)
  field h href hvalue _ hobject :=
    h.closed (href _ rfl) (.field (Table.mem_entries_of_get? hvalue) hobject)
  method h href hmethod := .of_accessible rfl (h.closed (href _ rfl) (.ownMethod hmethod))
  static h href hmethod := .of_accessible rfl (h.closed.findStatic? (href _ rfl) hmethod)
  loaded h hloaded := h.cached _ (Table.mem_entries_of_get? hloaded)
  tell h _ := ⟨h.of_same rfl rfl, .refl _⟩
  makeChild {_ state parent} h hparent := by
    have hparents : ∀ other ∈ (Scope.childOf parent).parent,
        origin.Accessible state.heap (.scope other) :=
      fun _ hmem => Option.some.inj hmem ▸ hparent
    obtain ⟨hpasses, hmade⟩ := h.makeScope rfl hparents
    exact ⟨hpasses, hmade, fun _ => hmade⟩
  makeInner h hvars hparent := by
    obtain ⟨hpasses, hmade⟩ := h.makeScope hvars hparent
    exact ⟨hpasses, hmade, fun _ => hmade⟩
  makeProcedure h hclosure := (h.makeProcedure hclosure).imp id (.of_accessible rfl)
  makeClass h hscope hparent hmethods hstatics := by
    have hmade := h.makeClass hscope (fun parent hmem => hparent parent hmem _ rfl)
      (fun entry hmem => hmethods entry hmem _ rfl) hstatics
    exact ⟨hmade.1, .of_accessible rfl hmade.2⟩
  makeInstance h hclass := (h.makeInstance hclass).imp id (.of_accessible rfl)
  makeEnum {_ state scope info} h hscope :=
    h.passes_change (.addEnum state.heap info (.scope scope)) rfl hscope fun _ hlink =>
      .inl (Heap.Links.of_addEnum hlink)
  define h hscope hvalue := h.define hscope hvalue
  assign {_ state scope name value} h hscope hvalue := by
    have htold : origin.Confined (state.tell (.assigned scope name)) := h.of_same rfl rfl
    exact htold.define (h.closed.owner hscope name) hvalue
  markExported {_ state scope name} h hscope :=
    h.passes_change (.modifyScope state.heap scope _) rfl hscope fun _ hlink =>
      .inl (Heap.Links.of_markExported hlink)
  setField {_ state object name value} h hobject hvalue :=
    h.passes_change (.setField state.heap object name value) rfl (hobject _ rfl) fun other hlink =>
      (Heap.Links.of_setField hlink).imp id (hvalue other)
  setStatic {_ state ref name method} h hclass hmethod := by
    refine h.passes_change (.setStatic state.heap ref name method) rfl hclass fun other hlink => ?_
    rcases Heap.Links.of_setStatic hlink with hlink | rfl
    · exact .inl hlink
    · exact .inr (hmethod _ rfl)
  call _ h := Confined.passes_around h rfl rfl rfl
  attempt h := Confined.passes_around h rfl rfl rfl
  module h := Confined.passes_around h rfl rfl rfl
  moduleFailed _ _ h := Confined.passes_around h rfl rfl rfl
  moduleLoaded _ _ h hbindings := by
    refine ⟨⟨h.1.grows, h.1.closed, h.1.agrees, fun loaded hmem => ?_⟩, h.2⟩
    rcases Table.mem_insertEntry hmem with rfl | hmem
    · exact hbindings
    · exact h.1.cached loaded hmem

end State

end Wabun
