import Wabun.Proofs.Conduct
import Wabun.Proofs.Frame
import Wabun.Session

/-!
Scopes are isolated from the code that runs elsewhere. A list of statements
binds names in the scope it runs in, and only those that its own statements
introduce. The blocks inside them, the functions they call, the classes they
make instances of and the modules they load have scopes of their own. In any
other scope the most that can happen is that a bound name gets another value,
and then there was an assignment to it.
-/

namespace Wabun

open State (Frame)

/-- The names that the statements introduce, in the scope they run in. -/
def Permit.introduced (body : List Node) (scope : ScopeRef) (state : State) : Permit :=
  fun ref name => ref = scope ∧ ∃ node ∈ body, node.Introduces state name

/-- A part of a run that binds, in the scope of the statements, what they turn
out to introduce. -/
def Run.BindsOnly {α : Type} (body : List Node) (scope : ScopeRef) (part : Run α) : Prop :=
  ∀ state, Frame (.introduced body scope (part.after state)) state (part.after state)

/-- What is introduced stays introduced: loaded modules stay as they are. -/
theorem Node.Introduces.mono {node : Node} {name : String} {state later : State}
    (h : node.Introduces state name) (hmodules : State.KeepsModules state later) :
    node.Introduces later name := by
  cases node with
  | importing moduleName =>
      obtain ⟨bindings, hloaded, hname⟩ := h
      exact ⟨bindings, hmodules.loaded hloaded, hname⟩
  | _ => exact h

/-- What is introduced by other statements than imports does not depend on the state. -/
theorem Node.Introduces.of_not_importing {node : Node} {name : String} {state : State}
    (h : node.Introduces state name) (hnode : ∀ moduleName, node ≠ .importing moduleName)
    (other : State) : node.Introduces other name := by
  cases node with
  | importing moduleName => exact absurd rfl (hnode moduleName)
  | _ => exact h

namespace Engine

section Loading

variable {name : String} {state middle : State}

/-- Loading a module leaves what was loaded and what is being loaded, if the run
of the module does. -/
theorem keepsModules_leaveModule
    (h : State.KeepsModules { state with loading := name :: state.loading } middle) :
    State.KeepsModules state (leaveModule middle) where
  loading := by rw [leaveModule, h.loading, List.tail_cons]
  loaded := h.loaded
  pending other hmem := h.pending other (List.mem_cons_of_mem name hmem)

/-- The module itself could not be loaded from within, so its bindings replace
no others. -/
theorem keepsModules_insert
    (h : State.KeepsModules { state with loading := name :: state.loading } middle)
    (hnew : state.modules.get? name = none) (hloading : state.loading.contains name = false)
    (bindings : Table Value) (journal : List Event) :
    State.KeepsModules state { leaveModule middle with
      modules := middle.modules.insert name bindings, journal } where
  loading := (keepsModules_leaveModule h).loading
  loaded {other kept} hkept := by
    have hother : other ≠ name := by
      rintro rfl
      rw [hnew] at hkept
      cases hkept
    exact (Table.get?_insert_of_ne middle.modules hother bindings).trans (h.loaded hkept)
  pending other hmem := by
    have hother : other ≠ name := by
      rintro rfl
      rw [List.contains_iff_mem.mpr hmem] at hloading
      cases hloading
    rw [Table.get?_insert_of_ne middle.modules hother bindings]
    exact h.pending other (List.mem_cons_of_mem name hmem)

end Loading

end Engine

/-- The permitted bindings, and all those in scopes that are not there yet. -/
def Permit.orNew (permit : Permit) (heap : Heap) : Permit :=
  fun ref name => heap.forest.size ≤ ref.index ∨ permit ref name

/-- To bind permitted names only. A frame is a permit that leaves new scopes free, and
nothing has to be known of values. -/
def Discipline.isolation : Discipline where
  Frame := Permit
  inner := id
  Sound permit state := ∀ ref name, state.heap.forest.size ≤ ref.index → permit ref name
  Passes := State.Frame
  Later _ _ := True
  Knows _ _ := True
  KnowsClass _ _ := True
  Reads _ _ _ := True
  Binds permit _ scope name := permit scope name
  sound_of_same h hheap _ := by
    rw [hheap]
    exact h
  sound_inner := id
  refl {_ s} _ := .refl s
  trans := .trans
  sound h hframe ref name hnew := h ref name (Nat.le_trans hframe.scopes.size hnew)
  later _ := trivial
  later_refl _ := trivial
  later_trans _ _ := trivial
  knows_later _ _ := trivial
  knowsClass_later _ _ := trivial
  reads_later _ _ := trivial
  binds_later h _ := h
  reads_inner := id
  binds_inner := id
  knows_plain _ := trivial
  class_of_knows _ := trivial
  lookUp _ _ _ := trivial
  binding _ _ _ := trivial
  closure _ _ := trivial
  environment _ _ := trivial
  lineage _ _ _ := trivial
  field _ _ _ := trivial
  method _ _ _ := trivial
  static _ _ _ := trivial
  loaded _ _ _ _ := trivial
  tell {_ s event} _ _ := .record s event
  makeChild {_ s parent} h _ :=
    ⟨.trans (.addScope s (.childOf parent)) (.record _ _), trivial,
      fun name => h _ name (Nat.le_refl _)⟩
  makeInner {_ s scope} h _ _ :=
    ⟨.trans (.addScope s scope) (.record _ _), trivial, fun name => h _ name (Nat.le_refl _)⟩
  makeProcedure _ _ := ⟨.of_forest_eq rfl (List.suffix_refl _) rfl rfl, trivial⟩
  makeClass _ _ _ _ _ := ⟨.of_forest_eq rfl (List.suffix_refl _) rfl rfl, trivial⟩
  makeInstance _ _ := ⟨.of_forest_eq rfl (List.suffix_refl _) rfl rfl, trivial⟩
  makeEnum _ _ := .of_forest_eq rfl (List.suffix_refl _) rfl rfl
  define {_ s scope name value} _ h _ :=
    State.Frame.of_only (.trans (.define s scope name value) (.record _ _)) h
  assign {_ s scope name value} _ h _ := (State.Frame.assign s scope name value).of_only h
  markExported {_ s scope name} _ h :=
    State.Frame.of_only (.trans (.markExported s scope name) (.record _ _)) h
  setField _ _ _ := .of_forest_eq rfl (List.suffix_cons _ _) rfl rfl
  setStatic _ _ _ := .of_forest_eq rfl (List.suffix_cons _ _) rfl rfl
  call {permit s t span} _ h := by
    have henter : State.Frame permit s (s.enter span) := .of_forest_eq rfl ⟨[_, _], rfl⟩ rfl rfl
    exact (henter.trans h).trans (.of_forest_eq rfl (List.suffix_cons _ _) rfl rfl)
  attempt {_ s t _} h := .trans (.trans (.record s _) h) (.record t _)
  module {_ s t _} h := .trans (.trans (.record s _) h) (.record t _)
  moduleFailed _ _ h :=
    ⟨h.scopes.around rfl (List.suffix_refl _) rfl (List.suffix_refl _),
      Engine.keepsModules_leaveModule h.modules⟩
  moduleLoaded hnew hloading h _ :=
    ⟨h.scopes.around rfl (List.suffix_refl _) rfl (List.suffix_cons _ _),
      Engine.keepsModules_insert h.modules hnew hloading _ _⟩

namespace Engine

open Run

section Isolation

variable {engine : Engine} (h : Discipline.isolation.Governs engine) {host : Host}

/-- What happens in new scopes is no matter of the frame. -/
theorem frame_of_obeys {α : Type} {post : Heap → α → Prop} {part : Run α} {permit : Permit}
    {state : State}
    (hpart : Discipline.isolation.Obeys (permit.orNew state.heap) post part state) :
    Frame permit state (part.after state) := by
  refine (hpart.after fun _ _ hnew => .inl hnew).weaken ?_
  rintro ref name hexists (hnew | hpermit)
  · exact absurd hexists (Nat.not_lt.mpr hnew)
  · exact hpermit

include h

theorem frame_loadModule (name : String) (state : State) :
    Frame .nothing state ((engine.loadModule host name).after state) :=
  frame_of_obeys (h.loadModule name)

/-- Once a module is loaded, an import binds the names of its bindings. -/
theorem bindsOnly_importing (fuel : Nat) (moduleName : String) (scope : ScopeRef) :
    BindsOnly [.importing moduleName] scope
      (engine.statement host fuel (.importing moduleName) scope) := by
  intro state
  have hload : Frame .nothing state ((engine.loadModule host moduleName).after state) :=
    frame_loadModule h moduleName state
  cases hrun : engine.loadModule host moduleName state with
  | error halt middle =>
      rw [after_of_error hrun] at hload
      rw [Engine.statement, after_bind_of_error hrun]
      exact hload.of_nothing
  | ok bindings middle =>
      rw [after_of_ok hrun] at hload
      rw [Engine.statement, after_bind_of_ok hrun]
      let named : Permit := fun ref name => ref = scope ∧ bindings.contains name = true
      have hbound : Discipline.isolation.Obeys (named.orNew middle.heap) (fun _ _ => True)
          (do
            defineAll scope (host.listing.list bindings)
            return Flow.normal) middle := by
        refine .bind (.forM fun binding hmem _ _ => .define (.inr ⟨rfl, ?_⟩) trivial)
          fun _ _ _ _ => .pure trivial
        exact Table.contains_of_mem_entries ((host.listing.perm bindings).mem_iff.mp hmem)
      have hframe := frame_of_obeys hbound
      refine hload.of_nothing.trans (hframe.weaken ?_)
      rintro ref name _ ⟨hscope, hname⟩
      have hloaded := hframe.modules.loaded (loaded_of_loadModule hrun)
      exact ⟨hscope, _, List.mem_cons_self, bindings, hloaded, hname⟩

theorem bindsOnly_statement (fuel : Nat) (node : Node) (scope : ScopeRef) :
    BindsOnly [node] scope (engine.statement host fuel node scope) := by
  by_cases himport : ∃ moduleName, node = .importing moduleName
  · obtain ⟨moduleName, rfl⟩ := himport
    exact bindsOnly_importing h fuel moduleName scope
  · intro state
    let introduced : Permit := fun ref name => ref = scope ∧ ∃ moment, node.Introduces moment name
    have hstatement : Discipline.isolation.Obeys (introduced.orNew state.heap)
        Discipline.isolation.Returns (engine.statement host fuel node scope) state :=
      h.statement fuel node trivial fun name moment hname => .inr ⟨rfl, moment, hname⟩
    refine (frame_of_obeys hstatement).weaken ?_
    rintro ref name _ ⟨hscope, moment, hname⟩
    have hintroduces := hname.of_not_importing fun moduleName hnode => himport ⟨moduleName, hnode⟩
    exact ⟨hscope, node, List.mem_cons_self, hintroduces _⟩

/-- The first statement may bind what it introduces, and the rest what they
introduce. -/
theorem bindsOnly_executeStep (fuel : Nat) (body : List Node) (scope : ScopeRef) :
    BindsOnly body scope (engine.executeStep host fuel body scope) := by
  induction body with
  | nil => exact fun state => .refl state
  | cons node rest ih =>
      intro state
      have hfirst : Frame _ state ((engine.statement host fuel node scope).after state) :=
        bindsOnly_statement h fuel node scope state
      have hpermit (final : State) (ref : ScopeRef) (name : String)
          (hnode : Permit.introduced [node] scope final ref name) :
          Permit.introduced (node :: rest) scope final ref name := by
        obtain ⟨hscope, other, hmem, hintroduces⟩ := hnode
        rw [List.mem_singleton.mp hmem] at hintroduces
        exact ⟨hscope, node, List.mem_cons_self, hintroduces⟩
      rw [Engine.executeStep]
      cases hrun : engine.statement host fuel node scope state with
      | error halt middle =>
          rw [after_of_error hrun] at hfirst
          rw [after_bind_of_error hrun]
          exact hfirst.weaken fun ref name _ => hpermit middle ref name
      | ok flow middle =>
          rw [after_of_ok hrun] at hfirst
          rw [after_bind_of_ok hrun]
          cases flow with
          | returned value => exact hfirst.weaken fun ref name _ => hpermit middle ref name
          | normal =>
              -- What the first statement introduced is judged in the last state,
              -- where its module is still loaded with the same bindings.
              have hrest := ih middle
              refine Frame.trans (hfirst.weaken ?_) (hrest.weaken ?_)
              · rintro ref name _ ⟨hscope, other, hmem, hintroduces⟩
                exact hpermit _ ref name ⟨hscope, other, hmem, hintroduces.mono hrest.modules⟩
              · rintro ref name _ ⟨hscope, other, hmem, hintroduces⟩
                exact ⟨hscope, other, List.mem_cons_of_mem node hmem, hintroduces⟩

omit h in
theorem bindsOnly_execute (host : Host) (fuel : Nat) (body : List Node) (scope : ScopeRef) :
    BindsOnly body scope ((ofFuel host fuel).execute body scope) := by
  cases fuel with
  | zero => exact fun state => .refl state
  | succ fuel => exact bindsOnly_executeStep (.ofFuel _ host fuel) fuel body scope

end Isolation

/-- However a list of statements ends, no binding is lost. Scopes other than its
own keep their names and exports, its own gets names that its statements
introduce, and a binding elsewhere keeps its value unless it was assigned to. -/
theorem execute_isolates_scopes (host : Host) (fuel : Nat) (body : List Node) (scope : ScopeRef)
    (state : State) (hscope : scope.index < state.heap.forest.size) :
    let final := ((ofFuel host fuel).execute body scope).after state
    let before := state.heap.forest
    let after := final.heap.forest
    (∀ ref name, (before.binding? ref name).isSome → (after.binding? ref name).isSome) ∧
    (∀ ref name, ref.index < before.size → ref ≠ scope →
      (after.binding? ref name).isSome = (before.binding? ref name).isSome ∧
      after.isExported ref name = before.isExported ref name) ∧
    (∀ name, (after.binding? scope name).isSome →
      (before.binding? scope name).isSome ∨ ∃ node ∈ body, node.Introduces final name) ∧
    (∀ ref name value, ref ≠ scope → before.binding? ref name = some value →
      after.binding? ref name = some value ∨ state.Assigns final name) := by
  intro final before after
  obtain ⟨hframe, _⟩ : Frame (.introduced body scope final) state final :=
    bindsOnly_execute host fuel body scope state
  have hother {ref : ScopeRef} (hne : ref ≠ scope) (name : String) :
      ¬ Permit.introduced body scope final ref name := fun hpermit => hne hpermit.1
  refine ⟨fun _ _ => hframe.binds, ?_, ?_, ?_⟩
  · intro ref name hexists hne
    constructor
    · exact hframe.isSome_eq hexists (hother hne name)
    · exact hframe.isExported_eq hexists (hother hne name)
  · intro name hbinds
    rcases hframe.isSome_or_permit hscope hbinds with hbefore | ⟨_, hintroduced⟩
    · exact .inl hbefore
    · exact .inr hintroduced
  · intro ref name value hne hvalue
    have hexists := Forest.index_lt_of_binding? hvalue
    rw [← hvalue]
    exact hframe.binding?_eq_or_assigns hexists (hother hne name)

/-- A scope that binds `x`, and one inside it. -/
def nestedScopes : State :=
  { State.initial with
    heap := { Heap.empty with
      forest := ⟨#[{ Scope.root with vars := .ofList [("x", .text "old")] }, .childOf ⟨0⟩]⟩ } }

/-- The statements of `真 なら { 宣言 y は "inner"  定義 x は "new" }`. -/
def assigningBlock : List Node :=
  [.alternative (.literal (.truth true))
    [.variableDeclaration .here "y" (.literal (.text "inner")),
      .variableDeclaration .nearest "x" (.literal (.text "new"))] none]

theorem execute_isolates_scopes_assigningBlock :
    let final := ((ofFuel .standard 3).execute assigningBlock ⟨1⟩).after nestedScopes
    (⟨1⟩ : ScopeRef).index < nestedScopes.heap.forest.size ∧
    nestedScopes.heap.forest.binding? ⟨0⟩ "x" = some (.text "old") ∧
    final.heap.forest.binding? ⟨0⟩ "x" = some (.text "new") ∧ nestedScopes.Assigns final "x" ∧
    final.heap.forest.binding? ⟨2⟩ "y" = some (.text "inner") ∧
    final.heap.forest.binding? ⟨1⟩ "y" = none := by
  intro final
  have hscope : (⟨1⟩ : ScopeRef).index < nestedScopes.heap.forest.size := by decide
  have hold : nestedScopes.heap.forest.binding? ⟨0⟩ "x" = some (.text "old") := by decide +kernel
  have hnew : final.heap.forest.binding? ⟨0⟩ "x" = some (.text "new") := by decide +kernel
  have hinner : final.heap.forest.binding? ⟨2⟩ "y" = some (.text "inner") := by decide +kernel
  obtain ⟨_, _, hnames, hvalues⟩ :=
    execute_isolates_scopes .standard 3 assigningBlock ⟨1⟩ nestedScopes hscope
  refine ⟨hscope, hold, hnew, ?_, hinner, ?_⟩
  · rcases hvalues ⟨0⟩ "x" (.text "old") (by decide) hold with hkept | hassigns
    · rw [hnew] at hkept
      simp at hkept
    · exact hassigns
  · refine Option.not_isSome_iff_eq_none.mp fun hbound => ?_
    rcases hnames "y" hbound with hbefore | ⟨node, hmem, hintroduces⟩
    · exact absurd hbefore (by decide)
    · rw [List.mem_singleton.mp hmem] at hintroduces
      exact hintroduces

end Engine

end Wabun
