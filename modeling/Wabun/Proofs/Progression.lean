import Wabun.Proofs.Conduct
import Wabun.Proofs.Effects

/-!
Runs that go on effect by effect. It is a discipline that whatever a run does to the heap
is a sequence of effects of which the journal tells, and that it gives and throws only
values that were made. Of the scopes that an assignment in the statements at hand can
write, it is known how old they are. Calls, new instances and modules are frames of their
own, whose assignments are another matter. So what the effects keep, every run keeps.
-/

namespace Wabun

open Run

/-- All the values of a table were made. -/
def Heap.MadeAll (heap : Heap) (bindings : Table Value) : Prop :=
  ∀ binding ∈ bindings.entries, heap.Made binding.2

theorem Heap.Made.of_object? {heap : Heap} {value : Value} (h : value.object? = none) :
    heap.Made value := by
  cases value with
  | procedure _ | classObject _ | instanceObject _ => cases h
  | _ => trivial

namespace State

/-- Only values that were made can be come by. -/
structure Sound (state : State) : Prop where
  heap : state.heap.Sound
  loaded : ∀ loaded ∈ state.modules.entries, state.heap.MadeAll loaded.2

theorem sound_initial : initial.Sound where
  heap := Heap.sound_empty
  loaded _ hmem := by cases hmem

/-- The heap went from one state to the other by effects that the journal tells of. -/
structure Advances (wall : Nat) (before after : State) : Prop where
  told : ∃ events, before.Tells events after ∧ before.heap.Proceeds wall events after.heap
  sound : after.Sound

variable {wall : Nat} {before middle after : State} {heap : Heap}

theorem Sound.of_same (h : before.Sound) (hheap : after.heap = before.heap)
    (hmodules : after.modules = before.modules) : after.Sound where
  heap := hheap ▸ h.heap
  loaded := by
    rw [hmodules, hheap]
    exact h.loaded

theorem Sound.of_extends (h : before.Sound) (hextends : before.heap.Extends after.heap)
    (hheap : after.heap.Sound) (hmodules : after.modules = before.modules) : after.Sound where
  heap := hheap
  loaded loaded hmem binding hbinding :=
    (h.loaded loaded (hmodules ▸ hmem) binding hbinding).mono hextends

namespace Advances

theorem of_proceeds {events : List Event} (htells : before.Tells events after)
    (hproceeds : before.heap.Proceeds wall events after.heap)
    (hmodules : after.modules = before.modules) (h : before.Sound) : Advances wall before after :=
  ⟨⟨events, htells, hproceeds⟩,
    h.of_extends hproceeds.extension (hproceeds.sound h.heap) hmodules⟩

theorem refl (h : before.Sound) : Advances wall before before :=
  of_proceeds (.of_journal_eq rfl) (.refl wall _) rfl h

theorem trans (h : Advances wall before middle) (h' : Advances wall middle after) :
    Advances wall before after := by
  obtain ⟨events, htells, hproceeds⟩ := h.told
  obtain ⟨later, htells', hproceeds'⟩ := h'.told
  exact ⟨⟨events ++ later, htells.append htells', hproceeds.trans hproceeds'⟩, h'.sound⟩

theorem extension (h : Advances wall before after) : before.heap.Extends after.heap := by
  obtain ⟨_, _, hproceeds⟩ := h.told
  exact hproceeds.extension

/-- An effect together with the event that tells of it. -/
theorem of_effect {events : List Event} (heffect : before.heap.Effect events after.heap)
    (htells : before.Tells events after) (hmodules : after.modules = before.modules)
    (h : before.Sound) : Advances wall before after :=
  of_proceeds htells (.effect heffect) hmodules h

/-- A part of a run between its beginning and its end. What the journal tells of the part,
it tells in other words of the whole. -/
theorem around {inner : Nat} {enter leave : State} (h : Advances inner enter leave)
    (wrap : List Event → List Event)
    (htells : ∀ events, enter.Tells events leave → before.Tells (wrap events) after)
    (hproceeds : ∀ events, enter.heap.Proceeds inner events leave.heap →
      before.heap.Proceeds wall (wrap events) after.heap)
    (hheap : after.heap = leave.heap) (hmodules : after.modules = leave.modules) :
    Advances wall before after := by
  obtain ⟨⟨events, htold, hinner⟩, hsound⟩ := h
  exact ⟨⟨wrap events, htells events htold, hproceeds events hinner⟩, hsound.of_same hheap hmodules⟩

theorem span {inner : Nat} (span : Span) (h : Advances inner (before.tell (.opened span)) after)
    (hproceeds : ∀ events, before.heap.Proceeds inner events after.heap →
      before.heap.Proceeds wall (.opened span :: (events ++ [.closed span])) after.heap) :
    Advances wall before (after.tell (.closed span)) := by
  refine h.around (fun events => Event.opened span :: (events ++ [Event.closed span]))
    (fun events htold => ?_) hproceeds rfl rfl
  exact (before.tells_tell (.opened span)).append (htold.append (after.tells_tell (.closed span)))

end Advances

end State

namespace Run

variable {α : Type} {state : State} {part : Run α}

/-- The value that a part gives, if it does. -/
def given? (part : Run α) (state : State) : Option α :=
  match part state with
  | .ok value _ => some value
  | .error _ _ => none

theorem eq_ok_of_given? {value : α} (h : part.given? state = some value) :
    part state = .ok value (part.after state) := by
  unfold given? at h
  unfold Run.after
  cases hrun : part state with
  | ok found final =>
      rw [hrun] at h
      cases h
      rfl
  | error halt final =>
      rw [hrun] at h
      cases h

theorem findClass_of_ok {name : String} {scope : ScopeRef} {ref : ClassRef} {final : State}
    (h : findClass name scope state = .ok ref final) :
    state.heap.forest.get? scope name = some (.classObject ref) ∧ final = state := by
  have hask : ask (fun heap => heap.forest.get? scope name) state =
    .ok (state.heap.forest.get? scope name) state := rfl
  unfold findClass at h
  rw [bind_of_ok hask] at h
  cases hfound : state.heap.forest.get? scope name with
  | none =>
      rw [hfound] at h
      cases h
  | some value =>
      rw [hfound] at h
      cases value with
      | classObject found =>
          cases h
          exact ⟨rfl, rfl⟩
      | _ => cases h

end Run

open State (Advances)

/-- To go on effect by effect. A frame is the age that the written scopes have at least. -/
def Discipline.progression : Discipline where
  Frame := Nat
  inner _ := 0
  Sound _ := State.Sound
  Passes := Advances
  Later := Heap.Extends
  Knows := Heap.Made
  KnowsClass _ _ := True
  Reads wall heap scope := heap.Shelters wall scope
  Binds wall heap scope _ := heap.Shelters wall scope
  sound_of_same := .of_same
  sound_inner := id
  refl := .refl
  trans := .trans
  sound _ h := h.sound
  later h := h.extension
  later_refl := .refl
  later_trans := .trans
  knows_later := .mono
  knowsClass_later h _ := h
  reads_later := .mono
  binds_later := .mono
  reads_inner _ := .free _
  binds_inner _ := .free _
  knows_plain := .of_object?
  class_of_knows _ := trivial
  lookUp h _ hfound := by
    obtain ⟨ref, _, hbound⟩ := List.exists_of_findSome?_eq_some hfound
    exact h.heap.bound hbound
  binding h _ hmem := h.heap.bound (Table.get?_of_mem_entries hmem)
  closure _ _ := .free _
  environment _ _ := .free _
  lineage _ _ _ := trivial
  field h _ hvalue := h.heap.held hvalue
  method _ _ _ := trivial
  static _ _ _ := trivial
  loaded h hloaded := h.loaded _ (Table.mem_entries_of_get? hloaded)
  tell {_ state event} h hremark := .of_proceeds (state.tells_tell event) (.remark hremark) rfl h
  makeChild {_ state _} h hparent :=
    ⟨.of_effect (.addScope rfl) (state.tells_tell _) rfl h, hparent.addChild,
      fun _ => hparent.addChild⟩
  makeInner {_ state _} h hvars _ :=
    ⟨.of_effect (.addScope hvars) (state.tells_tell _) rfl h, .free _, fun _ => .free _⟩
  makeProcedure {_ state procedure} h _ :=
    ⟨.of_effect (.addProcedure procedure) (.of_journal_eq rfl) rfl h, trivial⟩
  makeClass {_ state info} h _ hparent _ _ := by
    refine ⟨.of_effect (.addClass hparent) (.of_journal_eq rfl) rfl h, ?_⟩
    exact Nat.lt_of_lt_of_eq (Nat.lt_succ_self _) (Array.size_push info).symm
  makeInstance {_ state ref} h _ := by
    refine ⟨.of_effect (.addInstance ref) (.of_journal_eq rfl) rfl h, ?_⟩
    exact Nat.lt_of_lt_of_eq (Nat.lt_succ_self _) (Array.size_push _).symm
  makeEnum {_ state _ info} h _ := .of_effect (.addEnum info) (.of_journal_eq rfl) rfl h
  define {_ state scope name _} h _ hvalue :=
    .of_effect (.define scope name hvalue) (state.tells_tell _) rfl h
  assign {_ state scope name value} h hscope hvalue :=
    .of_proceeds ((state.tells_tell (.assigned scope name)).append (State.tells_tell _ _))
      (.assign name rfl (hscope.le_owner name) hvalue) rfl h
  markExported {_ state scope name} h _ :=
    .of_effect (.markExported scope name) (state.tells_tell _) rfl h
  setField {_ state object name _} h _ hvalue :=
    .of_effect (.setField object name hvalue) (state.tells_tell _) rfl h
  setStatic {_ state ref name method} h _ _ :=
    .of_effect (.setStatic ref name method) (state.tells_tell _) rfl h
  call {wall s t span} hspan h := by
    refine h.around
      (fun events => .entered (s.depth + 1) :: .opened span :: (events ++ [.closed span]))
      (fun events htold => ?_) (fun events hinner => ?_) rfl rfl
    · exact (s.tells_enter span).append (htold.append (t.tells_leave span))
    · have hentered : s.heap.Proceeds wall [.entered (s.depth + 1)] s.heap := .remark trivial
      exact hentered.trans (.frame hspan hinner)
  attempt {_ s t caught} h := h.span (.attempt caught) fun _ hinner => .attempt trivial hinner
  module {_ s t name} h := h.span (.module name) fun _ hinner => .frame id hinner
  moduleFailed _ _ h := ⟨h.told, h.sound.of_same rfl rfl⟩
  moduleLoaded {wall s t name bindings} _ _ h hbindings := by
    obtain ⟨⟨events, htells, hproceeds⟩, hsound⟩ := h
    have htold : s.Tells events t := htells
    have hloaded : t.heap.Proceeds wall [.moduleLoaded name] t.heap := .remark trivial
    refine ⟨⟨_, htold.append (t.tells_tell _), hproceeds.trans hloaded⟩, hsound.heap, ?_⟩
    intro loaded hmem
    rcases Table.mem_insertEntry hmem with rfl | hmem
    · exact hbindings
    · exact hsound.loaded loaded hmem

/-- Where the age of a scope is known, it can be read and filled. -/
theorem Heap.Shelters.opens {heap : Heap} {wall : Nat} {scope : ScopeRef}
    (h : heap.Shelters wall scope) : Discipline.progression.Opens wall heap scope :=
  ⟨h, fun _ => h⟩

theorem Discipline.Governs.advances_of_evaluate {engine : Engine} {node : Node} {scope : ScopeRef}
    {state final : State} {value : Value} (h : Discipline.progression.Governs engine)
    (hstate : state.Sound) (hrun : engine.evaluate node scope state = .ok value final) :
    Advances 0 state final :=
  ((h.evaluate (0 : Nat) node scope state (.free scope) hstate).1 value final hrun).1

end Wabun
