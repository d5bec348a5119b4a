import Wabun.Proofs.Completion
import Wabun.Proofs.Probing

/-!
Modules are loaded once. Every state has a roster of the modules that are being loaded
and of those that are loaded, and the journal tells when the statements of a module
begin and end and when it is loaded. A module begins only if it is on neither list, and
nothing takes it off the second one. So at every moment of a session, also inside of its
steps, no module is on both lists or twice on the first. A module that is asked for while
it is being loaded is a fault that no attempt takes up, and a module that fails is not
loaded, whatever was loaded on the way.
-/

namespace Wabun

open Run

/-- The event tells that the statements of a module begin or end, or that a module is
loaded. -/
def Event.tellsOfModule : Event → Bool
  | .opened (.module _) | .closed (.module _) | .moduleLoaded _ => true
  | _ => false

theorem Event.IsPlain.tellsOfModule {event : Event} (h : event.IsPlain) :
    event.tellsOfModule = false := by
  cases event with
  | opened _ | closed _ | moduleLoaded _ => cases h
  | _ => rfl

/-- The modules that are being loaded, the innermost first, and those that are loaded. -/
structure Roster where
  loading : List String
  loaded : String → Bool

namespace Roster

def Lacks (roster : Roster) (name : String) : Prop :=
  name ∉ roster.loading ∧ roster.loaded name = false

/-- No module is being loaded twice at once, and none that is loaded already. -/
structure Sound (roster : Roster) : Prop where
  nodup : roster.loading.Nodup
  apart : ∀ name ∈ roster.loading, roster.loaded name = false

/-- The roster after an event. -/
def after (roster : Roster) : Event → Roster
  | .opened (.module name) => { roster with loading := name :: roster.loading }
  | .closed (.module _) => { roster with loading := roster.loading.tail }
  | .moduleLoaded name => { roster with loaded := fun other => other == name || roster.loaded other }
  | _ => roster

/-- The roster after some events. -/
def told (roster : Roster) (events : List Event) : Roster :=
  events.foldl after roster

/-- A module begins or becomes loaded only where it is on neither list. -/
def Allows (roster : Roster) : Event → Prop
  | .opened (.module name) | .moduleLoaded name => roster.Lacks name
  | _ => True

/-- Each of the events is allowed at its moment. -/
def Permits : Roster → List Event → Prop
  | _, [] => True
  | roster, event :: later => roster.Allows event ∧ (roster.after event).Permits later

variable {roster : Roster} {event : Event} {events later : List Event} {name : String}

theorem after_of_other (h : event.tellsOfModule = false) (roster : Roster) :
    roster.after event = roster := by
  cases event with
  | opened span | closed span =>
      cases span with
      | module name => cases h
      | _ => rfl
  | moduleLoaded name => cases h
  | _ => rfl

theorem allows_of_other (h : event.tellsOfModule = false) (roster : Roster) :
    roster.Allows event := by
  cases event with
  | opened span =>
      cases span with
      | module name => cases h
      | _ => trivial
  | moduleLoaded name => cases h
  | _ => trivial

theorem told_append (roster : Roster) (events later : List Event) :
    roster.told (events ++ later) = (roster.told events).told later :=
  List.foldl_append

theorem permits_append :
    roster.Permits (events ++ later) ↔ roster.Permits events ∧ (roster.told events).Permits later := by
  induction events generalizing roster with
  | nil => simp [Permits, told]
  | cons event rest ih =>
      have hrest := @ih (roster.after event)
      simp only [List.cons_append, Permits, hrest, and_assoc]
      rfl

theorem loaded_told_iff :
    (roster.told events).loaded name = true ↔
      roster.loaded name = true ∨ .moduleLoaded name ∈ events := by
  induction events generalizing roster with
  | nil => simp [told]
  | cons event rest ih =>
      have hrest := @ih (roster.after event)
      rw [told, List.foldl_cons, ← told, hrest]
      cases event with
      | moduleLoaded other =>
          simp only [after, Bool.or_eq_true, beq_iff_eq, List.mem_cons, Event.moduleLoaded.injEq]
          constructor
          · rintro ((hsame | hloaded) | hlater)
            · exact .inr (.inl hsame)
            · exact .inl hloaded
            · exact .inr (.inr hlater)
          · rintro (hloaded | hsame | hlater)
            · exact .inl (.inr hloaded)
            · exact .inl (.inl hsame)
            · exact .inr hlater
      | opened span | closed span => cases span <;> simp [after]
      | _ => simp [after]

theorem Sound.after (h : roster.Sound) (hallows : roster.Allows event) :
    (roster.after event).Sound := by
  cases event with
  | opened span =>
      cases span with
      | module name =>
          obtain ⟨hnew, hunloaded⟩ := hallows
          refine ⟨List.nodup_cons.mpr ⟨hnew, h.nodup⟩, ?_⟩
          exact List.forall_mem_cons.mpr ⟨hunloaded, h.apart⟩
      | _ => exact h
  | closed span =>
      cases span with
      | module name =>
          have htail : roster.loading.tail.Sublist roster.loading := List.tail_sublist _
          exact ⟨h.nodup.sublist htail, fun other hmem => h.apart other (htail.subset hmem)⟩
      | _ => exact h
  | moduleLoaded name =>
      refine ⟨h.nodup, fun other hmem => ?_⟩
      have hother : other ≠ name := by
        rintro rfl
        exact hallows.1 hmem
      simp [Roster.after, hother, h.apart other hmem]
  | _ => exact h

theorem Sound.told (h : roster.Sound) (hpermits : roster.Permits events) :
    (roster.told events).Sound := by
  induction events generalizing roster with
  | nil => exact h
  | cons event rest ih => exact ih (h.after hpermits.1) hpermits.2

/-- A loaded module does not begin again and is not loaded again. -/
theorem not_mem_of_loaded (hloaded : roster.loaded name = true) (h : roster.Permits events) :
    .opened (.module name) ∉ events ∧ .moduleLoaded name ∉ events := by
  have hlacks {earlier rest : List Event} (hsplit : events = earlier ++ rest) :
      ¬ (roster.told earlier).Lacks name := by
    rintro ⟨_, hunloaded⟩
    have hstill : (roster.told earlier).loaded name = true := loaded_told_iff.mpr (.inl hloaded)
    rw [hstill] at hunloaded
    cases hunloaded
  constructor
  · intro hmem
    obtain ⟨earlier, rest, hsplit⟩ := List.append_of_mem hmem
    rw [hsplit, permits_append] at h
    exact hlacks hsplit h.2.1
  · intro hmem
    obtain ⟨earlier, rest, hsplit⟩ := List.append_of_mem hmem
    rw [hsplit, permits_append] at h
    exact hlacks hsplit h.2.1

/-- What the events of a session tell of its modules: at every moment the roster is
sound, and a module that is loaded was not loaded before, and afterwards it neither
begins nor is loaded again. -/
structure Regular (roster : Roster) (events : List Event) : Prop where
  sound : ∀ earlier later, events = earlier ++ later → (roster.told earlier).Sound
  once : ∀ earlier name later, events = earlier ++ .moduleLoaded name :: later →
    .moduleLoaded name ∉ earlier ∧ .moduleLoaded name ∉ later ∧ .opened (.module name) ∉ later

theorem Permits.regular (h : roster.Permits events) (hsound : roster.Sound) :
    roster.Regular events where
  sound earlier later hsplit := by
    rw [hsplit, permits_append] at h
    exact hsound.told h.1
  once earlier name later hsplit := by
    rw [hsplit, permits_append] at h
    obtain ⟨_, hlacks, hlater⟩ := h
    have hloaded : ((roster.told earlier).after (.moduleLoaded name)).loaded name = true := by
      simp [Roster.after]
    obtain ⟨hopened, hagain⟩ := not_mem_of_loaded hloaded hlater
    refine ⟨fun hearlier => ?_, hagain, hopened⟩
    have htwice : (roster.told earlier).loaded name = true := loaded_told_iff.mpr (.inr hearlier)
    rw [hlacks.2] at htwice
    cases htwice

end Roster

theorem Table.contains_insert {α : Type} (table : Table α) (name other : String) (value : α) :
    (table.insert name value).contains other = (other == name || table.contains other) := by
  by_cases hsame : other = name
  · subst hsame
    simp [contains, get?_insert_self]
  · simp [contains, get?_insert_of_ne table hsame, hsame]

namespace State

/-- The modules that are being loaded and those that are loaded. -/
def roster (state : State) : Roster :=
  ⟨state.loading, state.modules.contains⟩

/-- What happened between the two states leads from the first roster to the second,
and was allowed all the way. -/
def Accounts (before : State) (roster : Roster) (after : State) (final : Roster) : Prop :=
  ∃ events, before.Tells events after ∧ roster.told events = final ∧ roster.Permits events

/-- Between the two states modules were loaded in order, and those that were loaded
before stay as they are. -/
structure Loads (before after : State) : Prop where
  modules : KeepsModules before after
  moments : before.Accounts before.roster after after.roster

variable {s t u : State} {roster middle final : Roster}

theorem lacks_roster_iff {state : State} {name : String} :
    state.roster.Lacks name ↔
      state.modules.get? name = none ∧ state.loading.contains name = false := by
  have hloading : name ∉ state.loading ↔ state.loading.contains name = false := by simp
  have hmodules : state.modules.contains name = false ↔ state.modules.get? name = none := by
    simp [Table.contains]
  exact (and_congr hloading hmodules).trans and_comm

theorem roster_insert (state : State) (name : String) (bindings : Table Value)
    (journal : List Event) :
    State.roster { state with modules := state.modules.insert name bindings, journal } =
      state.roster.after (.moduleLoaded name) := by
  have hcontains : (state.modules.insert name bindings).contains =
      fun other => other == name || state.modules.contains other :=
    funext fun other => Table.contains_insert state.modules name other bindings
  rw [State.roster, hcontains]
  rfl

theorem Accounts.trans (h : s.Accounts roster t middle) (h' : t.Accounts middle u final) :
    s.Accounts roster u final := by
  obtain ⟨events, htells, rfl, hpermits⟩ := h
  obtain ⟨later, htells', rfl, hpermits'⟩ := h'
  refine ⟨events ++ later, htells.append htells', Roster.told_append roster events later, ?_⟩
  exact Roster.permits_append.mpr ⟨hpermits, hpermits'⟩

theorem Accounts.of_tells {event : Event} (htells : s.Tells [event] t)
    (hallows : roster.Allows event) : s.Accounts roster t (roster.after event) :=
  ⟨[event], htells, rfl, hallows, trivial⟩

/-- Nothing was told of modules. -/
theorem Accounts.of_other {events : List Event} (htells : s.Tells events t)
    (hevents : ∀ event ∈ events, event.tellsOfModule = false) : s.Accounts roster t roster := by
  refine ⟨events, htells, ?_⟩
  clear htells
  induction events with
  | nil => exact ⟨rfl, trivial⟩
  | cons event rest ih =>
      have hevent := hevents event List.mem_cons_self
      have hrest := ih fun other hmem => hevents other (List.mem_cons_of_mem event hmem)
      rw [Roster.told, List.foldl_cons, Roster.Permits, Roster.after_of_other hevent]
      exact ⟨hrest.1, Roster.allows_of_other hevent roster, hrest.2⟩

theorem KeepsModules.of_same (hmodules : t.modules = s.modules) (hloading : t.loading = s.loading) :
    KeepsModules s t where
  loading := hloading
  loaded h := by rw [hmodules]; exact h
  pending _ _ := by rw [hmodules]

namespace Loads

theorem trans (h : Loads s t) (h' : Loads t u) : Loads s u :=
  ⟨h.modules.trans h'.modules, h.moments.trans h'.moments⟩

/-- A change that has nothing to do with modules. -/
theorem of_other {events : List Event} (hmodules : t.modules = s.modules)
    (hloading : t.loading = s.loading) (htells : s.Tells events t)
    (hevents : ∀ event ∈ events, event.tellsOfModule = false) : Loads s t := by
  have hroster : t.roster = s.roster := by rw [roster, roster, hmodules, hloading]
  refine ⟨.of_same hmodules hloading, ?_⟩
  rw [hroster]
  exact .of_other htells hevents

theorem of_heap (state : State) (heap : Heap) : Loads state { state with heap } :=
  of_other rfl rfl (.of_journal_eq rfl) fun _ hmem => absurd hmem List.not_mem_nil

theorem refl (state : State) : Loads state state :=
  of_heap state state.heap

theorem tell (state : State) {event : Event} (hevent : event.tellsOfModule = false) :
    Loads state (state.tell event) :=
  of_other rfl rfl (tells_tell state event) (by simpa using hevent)

/-- A call begins and ends. -/
theorem call {span : Span} (hspan : ∀ name, span ≠ .module name) (h : Loads (s.enter span) t) :
    Loads s (t.leave span) := by
  have hopened : (Event.opened span).tellsOfModule = false := by
    cases span with
    | module name => exact absurd rfl (hspan name)
    | _ => rfl
  have hclosed : (Event.closed span).tellsOfModule = false := by
    cases span with
    | module name => exact absurd rfl (hspan name)
    | _ => rfl
  have henter : Loads s (s.enter span) :=
    of_other rfl rfl (tells_enter s span) (by
      rw [List.forall_mem_cons, List.forall_mem_singleton]
      exact ⟨rfl, hopened⟩)
  have hleave : Loads t (t.leave span) :=
    of_other rfl rfl (tells_leave t span) (by simpa using hclosed)
  exact (henter.trans h).trans hleave

end Loads

end State

namespace Run

variable {α β : Type}

/-- From every state the part loads modules in order, however it ends. -/
def Loads (part : Run α) : Prop :=
  ∀ state, State.Loads state (part.after state)

namespace Loads

variable {part : Run α} {host : Host} {engine : Engine}

theorem bind {next : α → Run β} (hpart : Loads part) (hnext : ∀ value, Loads (next value)) :
    Loads (part >>= next) := by
  intro state
  have hfirst := hpart state
  cases hrun : part state with
  | ok value middle =>
      rw [after_of_ok hrun] at hfirst
      rw [after_bind_of_ok hrun]
      exact hfirst.trans (hnext value middle)
  | error halt middle =>
      rw [after_of_error hrun] at hfirst
      rw [after_bind_of_error hrun]
      exact hfirst

theorem pure (value : α) : Loads (Pure.pure value : Run α) :=
  .refl

theorem raise (fault : Fault) : Loads (Run.raise fault : Run α) :=
  fun state => .tell state rfl

theorem record {event : Event} (h : event.tellsOfModule = false) : Loads (Run.record event) :=
  fun state => .tell state h

/-- A part that changes the heap only. -/
theorem of_heap (h : ∀ state, ∃ heap, part.after state = { state with heap }) : Loads part := by
  intro state
  obtain ⟨heap, hafter⟩ := h state
  rw [hafter]
  exact .of_heap state heap

theorem makeScope (scope : Scope) : Loads (Run.makeScope scope) := by
  refine bind (of_heap fun _ => ⟨_, rfl⟩) fun ref => ?_
  exact bind (record rfl) fun _ => pure ref

theorem define (scope : ScopeRef) (name : String) (value : Value) :
    Loads (Run.define scope name value) :=
  bind (of_heap fun _ => ⟨_, rfl⟩) fun _ => record rfl

theorem defineAll (scope : ScopeRef) (bindings : List (String × Value)) :
    Loads (Run.defineAll scope bindings) := by
  induction bindings with
  | nil => exact pure _
  | cons binding rest ih => exact bind (define scope binding.1 binding.2) fun _ => ih

/-- Statements that return leave out what comes after them. -/
theorem andThen {first : Run Flow} {next : Flow → Run Flow} (hfirst : Loads first)
    (hreturned : ∀ value, next (.returned value) = Pure.pure (.returned value))
    (hnext : Loads (next .normal)) : Loads (first >>= next) := by
  refine bind hfirst fun flow => ?_
  cases flow with
  | normal => exact hnext
  | returned value =>
      rw [hreturned value]
      exact pure _

theorem nested {span : Span} (hspan : ∀ name, span ≠ .module name) (h : Loads part) :
    Loads (Run.nested host span part) := by
  intro state
  by_cases hfull : host.maxDepth ≤ state.depth
  · rw [after, nested_of_full hfull]
    exact .tell state rfl
  · rw [after, nested_of_room hfull, ← after, after_between]
    exact (h (state.enter span)).call hspan

theorem attempt (body : List Node) (caught : String) (handler : List Node) (scope : ScopeRef)
    (hbody : Loads (engine.block body scope)) (hhandler : ∀ inner, Loads (engine.execute handler inner)) :
    Loads (engine.attempt body caught handler scope) := by
  intro state
  have htried : State.Loads state
      ((during (.attempt caught) (engine.block body scope)).after state) := by
    rw [during, after_between]
    exact ((State.Loads.tell state rfl).trans (hbody _)).trans (.tell _ rfl)
  rcases engine.attempt_cases body caught handler scope state with
    hsame | ⟨value, middle, hthrown, hcaught⟩
  · rw [after, hsame]
    exact htried
  · rw [after_of_error hthrown] at htried
    rw [after, hcaught]
    have hhandled := (makeScope (.childOf scope)).bind fun inner =>
      (define inner caught value).bind fun _ => hhandler inner
    exact htried.trans (hhandled middle)

section Modules

/-- What holds while a module is run that is new to the state: the modules are kept,
and at the end the account is that of the state without this module. -/
def Module (name : String) (part : Run (Table Value)) : Prop :=
  ∀ state : State, state.roster.Lacks name →
    let entered : State := { state with loading := name :: state.loading }
    State.KeepsModules entered (part.after entered) ∧
    entered.Accounts state.roster (part.after entered)
      (Engine.leaveModule (part.after entered)).roster

theorem after_bind_ask (part : Run α) (question : Heap → β) (state : State) :
    (part >>= fun _ => ask question).after state = part.after state := by
  cases hrun : part state with
  | ok value middle =>
      rw [after_bind_of_ok hrun, after_of_ok hrun]
      rfl
  | error halt middle => rw [after_bind_of_error hrun, after_of_error hrun]

theorem runModule (h : ∀ statements scope, Loads (engine.execute statements scope))
    (name : String) : Module name (engine.runModule host name) := by
  intro state hlacks entered
  unfold Engine.runModule
  cases host.modules name with
  | error cause =>
      refine ⟨.of_same rfl rfl, .of_other (State.tells_tell entered _) ?_⟩
      simp [Event.tellsOfModule]
  | ok statements =>
      let made := (Run.makeScope .root).after entered
      have hmade : Run.makeScope .root entered = .ok ⟨entered.heap.forest.size⟩ made := rfl
      let opened := made.tell (.opened (.module name))
      have hrun := h statements ⟨entered.heap.forest.size⟩ opened
      let final := ((engine.execute statements ⟨entered.heap.forest.size⟩).after opened)
      rw [after_bind_of_ok hmade, after_bind_ask, during, after_between]
      constructor
      · have hopened : State.KeepsModules entered opened := .of_same rfl rfl
        exact (hopened.trans hrun.modules).trans (.of_same rfl rfl)
      · -- The roster has the module on its list from its first statement to its last.
        have hscope : entered.Accounts state.roster made state.roster :=
          .of_other (State.recounts_makeScope .root entered).tells (by simp [Event.tellsOfModule])
        have hopened : made.Accounts state.roster opened opened.roster :=
          .of_tells (State.tells_tell made _) hlacks
        have hclosed : final.Accounts final.roster (final.tell (.closed (.module name)))
            (Engine.leaveModule final).roster :=
          .of_tells (State.tells_tell final _) trivial
        exact ((hscope.trans hopened).trans hrun.moments).trans hclosed

theorem loadModule {name : String} (h : Module name (engine.runModule host name)) :
    Loads (engine.loadModule host name) := by
  intro state
  cases hloaded : state.modules.get? name with
  | some bindings =>
      rw [after_of_ok (engine.loadModule_of_loaded hloaded)]
      exact .refl state
  | none =>
      cases hloading : state.loading.contains name with
      | true =>
          rw [after, engine.loadModule_of_loading hloaded hloading]
          exact .tell state rfl
      | false =>
          have hlacks := State.lacks_roster_iff.mpr ⟨hloaded, hloading⟩
          let entered : State := { state with loading := name :: state.loading }
          obtain ⟨hmodules, hmoments⟩ := h state hlacks
          rw [after, engine.loadModule_of_new hloaded hloading]
          cases hrun : engine.runModule host name entered with
          | error halt middle =>
              rw [after_of_error hrun] at hmodules hmoments
              exact ⟨Engine.keepsModules_leaveModule hmodules, hmoments⟩
          | ok bindings middle =>
              rw [after_of_ok hrun] at hmodules hmoments
              refine ⟨Engine.keepsModules_insert hmodules hloaded hloading bindings _, ?_⟩
              -- The module was not loaded from within, so it is on neither list yet.
              have hleft : (Engine.leaveModule middle).roster.Lacks name := by
                have hnew := hmodules.pending name List.mem_cons_self
                have hkept := (Engine.keepsModules_leaveModule hmodules).loading
                rw [State.lacks_roster_iff, hkept]
                exact ⟨hnew.trans hloaded, hloading⟩
              have hdone := hmoments.trans
                (.of_tells (State.tells_tell middle (.moduleLoaded name)) hleft)
              rw [← State.roster_insert _ name bindings (.moduleLoaded name :: middle.journal)] at hdone
              exact hdone

end Modules

end Loads

end Run

/-- That runs load modules in order, part by part. -/
def Calculus.loading (host : Host) : Calculus host host where
  Rel _ part _ := Run.Loads part
  Inside part _ := Run.Loads part
  Loading name part _ := Run.Loads.Module name part
  Admits := Node.AnyBody
  hereditary := Node.hereditary_anyBody
  Evaluates := Node.AnyNode
  supplied := Node.supplied_anyNode _
  alike := .refl host
  pure _ := .pure _
  bind hpart hnext := .bind hpart hnext
  raise fault _ := .raise fault
  askThen _ _ _ hnext := fun state => hnext state.heap state.heap.holds_anyBody state
  make _ _ _ := .of_heap fun _ => ⟨_, rfl⟩
  change _ _ _ := .of_heap fun _ => ⟨_, rfl⟩
  record hevent := .record hevent.tellsOfModule
  makeScope scope := .makeScope scope
  compare _ _ := .of_heap fun state => ⟨state.heap, rfl⟩
  bindAll scope _ := .defineAll scope _
  andThen hfirst hreturned _ hnext := hfirst.andThen hreturned hnext
  giveBack _ := .bind (.record rfl) fun _ => .pure _
  call _ _ _ hpart := .bind (.nested (fun _ => Span.noConfusion) hpart) fun _ =>
    .bind (.record rfl) fun _ => .pure _
  members _ _ _ hpart := .nested (fun _ => Span.noConfusion) hpart
  loadModule _ hrun := .loadModule hrun
  attempt body caught handler scope hbody hhandler :=
    .attempt body caught handler scope hbody hhandler

namespace Engine

/-- Expressions and statements load modules in order. -/
structure LoadsInOrder (engine : Engine) : Prop where
  evaluate : ∀ node scope, Loads (engine.evaluate node scope)
  execute : ∀ body scope, Loads (engine.execute body scope)

namespace LoadsInOrder

variable {engine : Engine} (h : engine.LoadsInOrder) (host : Host)
include h

theorem nested (size : Nat) : (Calculus.loading host).Nested engine engine size where
  evaluate node scope _ _ := h.evaluate node scope
  execute body scope _ _ := h.execute body scope
  inside body scope _ := h.execute body scope
  loading name := Loads.runModule h.execute name

theorem loadModule (name : String) : Loads (engine.loadModule host name) :=
  .loadModule (Loads.runModule h.execute name)

theorem executeStep (fuel : Nat) (body : List Node) (scope : ScopeRef) :
    Loads (engine.executeStep host fuel body scope) := by
  have hstep : (Calculus.loading host).Flows (engine.executeStep host fuel body scope)
      (engine.executeStep host fuel body scope) := by
    have hallows (node : Node) (hmem : node ∈ body) : (Calculus.loading host).Allows node :=
      (Calculus.loading host).allows_of_admits (Node.anyBody body) hmem
    refine (h.nested host _).executeStep hallows (Nat.le_refl _) (fun _ => Loads.raise _) scope
      fun condition inner _ => ?_
    have hnested := h.nested host (sizeOf condition + sizeOf inner + 1)
    exact hnested.loop State.Loads.refl (Node.anyNode condition) (by omega) (Node.anyBody inner)
      (by omega) scope
  exact hstep

end LoadsInOrder

theorem loadsInOrder_ofFuel (host : Host) (fuel : Nat) : (ofFuel host fuel).LoadsInOrder := by
  induction fuel with
  | zero => exact ⟨fun _ _ => State.Loads.refl, fun _ _ => State.Loads.refl⟩
  | succ fuel ih =>
      constructor
      · intro node scope
        exact (ih.nested host _).evaluateStep (Node.anyNode node) (Nat.le_refl _)
          (fun _ => Loads.raise _) scope
      · intro body scope
        exact ih.executeStep host fuel body scope

end Engine

/-- A session goes on from one state to another, without being reset. -/
inductive State.Continues (start : State) : State → Prop
  | refl : Continues start start
  | root {state} : Continues start state → Continues start (Run.root.after state)
  | evaluate {state} (host : Host) (fuel : Nat) (node : Node) (scope : ScopeRef) :
    Continues start state →
    Continues start (((Engine.ofFuel host fuel).evaluate node scope).after state)
  | execute {state} (host : Host) (fuel : Nat) (body : List Node) (scope : ScopeRef) :
    Continues start state →
    Continues start (((Engine.ofFuel host fuel).execute body scope).after state)
  | program {state} (host : Host) (node : Node) (scope : ScopeRef) :
    Continues start state → Continues start ((Run.program host node scope).after state)
  | loadModule {state} (host : Host) (fuel : Nat) (name : String) :
    Continues start state →
    Continues start (((Engine.ofFuel host fuel).loadModule host name).after state)

theorem Run.Loads.program (host : Host) (node : Node) (scope : ScopeRef) :
    Loads (Run.program host node scope) := by
  refine bind ((Engine.loadsInOrder_ofFuel host Run.plenty).execute node.statements scope) ?_
  intro flow
  cases flow with
  | normal => exact pure none
  | returned value => exact pure (some value)

theorem State.Continues.loads {start state : State} (h : start.Continues state) :
    State.Loads start state := by
  induction h with
  | refl => exact .refl start
  | root _ ih => exact ih.trans (Run.Loads.makeScope .root _)
  | evaluate host fuel node scope _ ih =>
      exact ih.trans ((Engine.loadsInOrder_ofFuel host fuel).evaluate node scope _)
  | execute host fuel body scope _ ih =>
      exact ih.trans ((Engine.loadsInOrder_ofFuel host fuel).execute body scope _)
  | program host node scope _ ih => exact ih.trans (Run.Loads.program host node scope _)
  | loadModule host fuel name _ ih =>
      exact ih.trans ((Engine.loadsInOrder_ofFuel host fuel).loadModule host name _)

/-- The session comes through the moment, between two of its steps or inside of one. -/
def State.Traverses (start moment : State) : Prop :=
  ∃ state, start.Continues state ∧ (moment = state ∨ ∃ host, state.Meets host moment)

theorem State.roster_closed {state : State} {name : String} {rest : List String}
    (htop : state.loading = name :: rest) :
    State.roster { state with loading := rest } = state.roster.after (.closed (.module name)) := by
  have hrest : state.loading.tail = rest := by rw [htop, List.tail_cons]
  rw [← hrest]
  rfl

/-- Calls are no matter of the roster, and a module begins and ends as its events say. -/
theorem State.upheld_sound (host : Host) :
    State.Upheld host fun state => state.roster.Sound where
  same {s t} h _ hloading hmodules := by
    have hroster : t.roster = s.roster := by rw [roster, roster, hloading, hmodules]
    rw [hroster]
    exact h
  call h _ := h
  callEnd h := h
  module {s name} h hnew hloading := by
    have hlacks : s.roster.Allows (.opened (.module name)) :=
      lacks_roster_iff.mpr ⟨hnew, hloading⟩
    exact h.after hlacks
  moduleEnd {s name rest} h htop := by
    rw [roster_closed htop]
    exact h.after trivial
  moduleLoaded {s name rest bindings} h htop := by
    let left : State := { s with loading := rest }
    have hleft : left.roster.Sound := by
      rw [roster_closed htop]
      exact h.after trivial
    have hlacks : left.roster.Lacks name := by
      have htop' : s.roster.loading = name :: rest := htop
      have hnodup := h.nodup
      rw [htop', List.nodup_cons] at hnodup
      exact ⟨hnodup.1, h.apart name (htop' ▸ List.mem_cons_self)⟩
    have hloaded : (left.roster.after (.moduleLoaded name)).Sound := hleft.after hlacks
    rwa [← roster_insert left name bindings s.journal] at hloaded

theorem State.roster_reset_sound (state : State) : state.reset.roster.Sound :=
  ⟨List.nodup_nil, fun _ hmem => absurd hmem List.not_mem_nil⟩

theorem State.Loads.sound {before after : State} (h : Loads before after)
    (hsound : before.roster.Sound) : after.roster.Sound := by
  obtain ⟨_, events, _, htold, hpermits⟩ := h
  rw [← htold]
  exact hsound.told hpermits

/-- At every moment the roster is sound. -/
theorem State.Traverses.sound {start moment : State} (h : start.Traverses moment)
    (hstart : start.roster.Sound) : moment.roster.Sound := by
  obtain ⟨state, hcontinues, rfl | ⟨host, hmeets⟩⟩ := h
  · exact hcontinues.loads.sound hstart
  · exact hmeets.holds_of_upheld (upheld_sound host) (hcontinues.loads.sound hstart)

section Faults

variable {α : Type}

/-- The fault of a module that is raised anywhere in the part is how the part ends. -/
def Run.EndsByModuleFault (part : Run α) : Prop :=
  ∀ state events cause, State.Tells state events (part.after state) →
    .raised (.module cause) ∈ events →
    part state = .error (.fault (.module cause)) (part.after state)

theorem Run.GoesInOrder.endsByModuleFault {reading : α → Flow} {part : Run α}
    (h : GoesInOrder reading part) : EndsByModuleFault part := by
  intro state events cause htells hraised
  obtain ⟨told, hrecounts, horderly⟩ := h state
  obtain rfl := htells.unique hrecounts.tells
  obtain ⟨earlier, later, hsplit⟩ := List.append_of_mem hraised
  have hunwinds := horderly.settles earlier (.raised (.module cause)) later hsplit
  have hthrough (span : Span) : (Signal.raised (.module cause)).takenUp span = none :=
    Signal.takenUp_raised_of_ne (fun _ => Fault.noConfusion) span
  exact Outcome.eq_error_of_halted (hunwinds.eq_of_through fun span _ => hthrough span).2

/-- What only looks at the result of a part ends by the faults of the part. -/
theorem Run.EndsByModuleFault.bind {β : Type} {part : Run α} {next : α → Run β}
    (h : EndsByModuleFault part)
    (hnext : ∀ value state, ∃ result, next value state = .ok result state) :
    EndsByModuleFault (part >>= next) := by
  intro state events cause htells hraised
  cases hrun : part state with
  | ok value middle =>
      obtain ⟨result, hresult⟩ := hnext value middle
      rw [after_bind_of_ok hrun, after_of_ok hresult] at htells
      have hends := h state events cause (by rwa [after_of_ok hrun]) hraised
      rw [hrun] at hends
      cases hends
  | error halt middle =>
      rw [after_bind_of_error hrun] at htells ⊢
      have hends := h state events cause (by rwa [after_of_error hrun]) hraised
      rw [hrun] at hends
      cases hends
      exact bind_of_error hrun

theorem Run.endsByModuleFault_program (host : Host) (node : Node) (scope : ScopeRef) :
    EndsByModuleFault (Run.program host node scope) := by
  have horder := (Congruence.order host).ofFuel plenty
  refine (horder.execute node.statements scope).endsByModuleFault.bind fun flow state => ?_
  cases flow with
  | normal => exact ⟨none, rfl⟩
  | returned value => exact ⟨some value, rfl⟩

end Faults

namespace Engine

section Results

variable {host : Host} {engine : Engine} {name : String} {state : State}

theorem import_of_loaded {bindings : Table Value} (h : state.modules.get? name = some bindings)
    (fuel : Nat) (scope : ScopeRef) :
    engine.statement host fuel (.importing name) scope state =
      (defineAll scope (host.listing.list bindings) >>= fun _ => pure .normal) state := by
  rw [statement, bind_of_ok (engine.loadModule_of_loaded h)]

theorem import_of_loading (hnew : state.modules.get? name = none)
    (h : state.loading.contains name = true) (fuel : Nat) (scope : ScopeRef) :
    engine.statement host fuel (.importing name) scope state =
      raise (.module (.cyclic name state.loading.reverse)) state := by
  have hraised : engine.loadModule host name state = .error _ _ :=
    engine.loadModule_of_loading hnew h
  rw [statement, bind_of_error hraised]
  rfl

/-- A module that fails was not loaded and is not. -/
theorem not_loaded_of_error {halt : Halt} {final : State} (h : engine.LoadsInOrder)
    (hrun : engine.loadModule host name state = .error halt final) :
    final.modules.get? name = none := by
  cases hloaded : state.modules.get? name with
  | some bindings =>
      rw [engine.loadModule_of_loaded hloaded] at hrun
      cases hrun
  | none =>
      cases hloading : state.loading.contains name with
      | true =>
          rw [engine.loadModule_of_loading hloaded hloading] at hrun
          cases hrun
          exact hloaded
      | false =>
          let entered : State := { state with loading := name :: state.loading }
          have hlacks := State.lacks_roster_iff.mpr ⟨hloaded, hloading⟩
          have hruns : Loads.Module name (engine.runModule host name) :=
            Loads.runModule h.execute name
          obtain ⟨hmodules, _⟩ := hruns state hlacks
          rw [engine.loadModule_of_new hloaded hloading] at hrun
          cases hmodule : engine.runModule host name entered with
          | ok bindings middle =>
              rw [hmodule] at hrun
              cases hrun
          | error cause middle =>
              rw [hmodule] at hrun
              rw [after_of_error hmodule] at hmodules
              cases hrun
              exact (hmodules.pending name List.mem_cons_self).trans hloaded

end Results

/-- In a session that is not reset the modules are loaded one at a time and each once
at most, and at every moment of it none is being loaded twice or loaded already. Whoever
asks for a module that is loaded finds what it was loaded with and nothing runs; whoever
asks at some moment for one that is being loaded raises a fault, and the fault of a module
is how the whole run ends. A module that fails is not loaded, and those that came to their
end meanwhile are. -/
theorem modules_load_once :
    (∀ origin state : State, origin.reset.Continues state → state.loading = [] ∧
      ∃ events, origin.reset.Tells events state ∧ origin.reset.roster.Regular events ∧
        origin.reset.roster.told events = state.roster) ∧
    (∀ origin moment : State, origin.reset.Traverses moment → moment.loading.Nodup ∧
      ∀ name ∈ moment.loading, moment.modules.get? name = none) ∧
    (∀ (start later : State) (name : String) (bindings : Table Value), start.Continues later →
      start.modules.get? name = some bindings ∨
        (∃ host fuel before, (ofFuel host fuel).loadModule host name before = .ok bindings start) →
      ∀ (host : Host) (engine : Engine),
        engine.loadModule host name later = .ok bindings later ∧
        ∀ fuel scope, engine.statement host fuel (.importing name) scope later =
          (defineAll scope (host.listing.list bindings) >>= fun _ => pure .normal) later) ∧
    (∀ (origin moment : State) (name : String), origin.reset.Traverses moment →
      name ∈ moment.loading → ∀ (host : Host) (engine : Engine),
        let fault : Fault := .module (.cyclic name moment.loading.reverse)
        engine.loadModule host name moment = raise fault moment ∧
        ∀ fuel scope, engine.statement host fuel (.importing name) scope moment =
          raise fault moment) ∧
    (∀ (host : Host) (fuel : Nat),
      (∀ node scope, EndsByModuleFault ((ofFuel host fuel).evaluate node scope)) ∧
      (∀ body scope, EndsByModuleFault ((ofFuel host fuel).execute body scope)) ∧
      (∀ node scope, EndsByModuleFault (Run.program host node scope)) ∧
      ∀ name, EndsByModuleFault ((ofFuel host fuel).loadModule host name)) ∧
    (∀ (host : Host) (fuel : Nat) (name : String) (state final : State) (halt : Halt),
      (ofFuel host fuel).loadModule host name state = .error halt final →
      final.modules.get? name = none ∧
      (∀ other bindings, state.modules.get? other = some bindings →
        final.modules.get? other = some bindings) ∧
      ∃ events, state.Tells events final ∧
        ∀ other, .moduleLoaded other ∈ events → final.modules.contains other = true) := by
  have hapart {origin moment : State} (h : origin.reset.Traverses moment) (name : String)
      (hmem : name ∈ moment.loading) : moment.modules.get? name = none := by
    have hunloaded := (h.sound origin.roster_reset_sound).apart name hmem
    simpa [State.roster, Table.contains] using hunloaded
  refine ⟨?_, ?_, ?_, ?_, ?_, ?_⟩
  · intro origin state hcontinues
    obtain ⟨hmodules, events, htells, htold, hpermits⟩ := hcontinues.loads
    have hregular := hpermits.regular origin.roster_reset_sound
    exact ⟨hmodules.loading, events, htells, hregular, htold⟩
  · intro origin moment htraverses
    exact ⟨(htraverses.sound origin.roster_reset_sound).nodup, hapart htraverses⟩
  · intro start later name bindings hcontinues hstart host engine
    have hloaded : start.modules.get? name = some bindings := by
      rcases hstart with hloaded | ⟨_, _, _, hrun⟩
      · exact hloaded
      · exact loaded_of_loadModule hrun
    have hkept := hcontinues.loads.modules.loaded hloaded
    refine ⟨engine.loadModule_of_loaded hkept, fun fuel scope => ?_⟩
    exact import_of_loaded hkept fuel scope
  · intro origin moment name htraverses hmem host engine fault
    have hloading : moment.loading.contains name = true := List.contains_iff_mem.mpr hmem
    have hnew := hapart htraverses name hmem
    refine ⟨engine.loadModule_of_loading hnew hloading, fun fuel scope => ?_⟩
    exact import_of_loading hnew hloading fuel scope
  · intro host fuel
    have horder := (Congruence.order host).ofFuel fuel
    refine ⟨fun node scope => ?_, fun body scope => ?_, fun node scope => ?_, fun name => ?_⟩
    · exact (horder.evaluate node scope).endsByModuleFault
    · exact (horder.execute body scope).endsByModuleFault
    · exact endsByModuleFault_program host node scope
    · exact (horder.loadModule name).endsByModuleFault
  · intro host fuel name state final halt hrun
    have hengine := loadsInOrder_ofFuel host fuel
    have hloads := hengine.loadModule host name state
    rw [after_of_error hrun] at hloads
    obtain ⟨hmodules, events, htells, htold, _⟩ := hloads
    refine ⟨not_loaded_of_error hengine hrun, fun _ _ => hmodules.loaded, events, htells, ?_⟩
    intro other hmem
    have hloaded : (state.roster.told events).loaded other = true :=
      Roster.loaded_told_iff.mpr (.inr hmem)
    rw [htold] at hloaded
    exact hloaded

/-- A module that comes to its end, one that throws after it has loaded the first, and
one that attempts to load itself. -/
def threeModules : Table (List Node) :=
  ((Table.empty.insert "水" [.exporting "色" (.literal (.text "青"))]).insert "火"
    [.importing "水", .throwUp (.literal (.text "煙"))]).insert "環"
    [.attempt [.importing "環"] "物" []]

theorem modules_load_once_threeModules :
    let host := Host.standard.withModules threeModules
    let engine := ofFuel host 9
    let burnt := (engine.loadModule host "火").after State.initial.reset
    let turned := (engine.loadModule host "環").after burnt
    burnt.modules.get? "火" = none ∧
    (∃ inside, State.initial.reset.Traverses inside ∧ inside.loading = ["環"] ∧
      engine.loadModule host "環" inside = raise (.module (.cyclic "環" ["環"])) inside) ∧
    engine.loadModule host "環" burnt = .error (.fault (.module (.cyclic "環" ["環"]))) turned ∧
    turned.loading = [] ∧
    ∃ bindings, burnt.modules.get? "水" = some bindings ∧
      engine.loadModule host "水" turned = .ok bindings turned := by
  intro host engine burnt turned
  have hburnt : State.initial.reset.Tells [.scopeMade ⟨0⟩, .opened (.module "火"),
      .scopeMade ⟨1⟩, .opened (.module "水"), .bound ⟨1⟩ "色" (.text "青"), .exported ⟨1⟩ "色",
      .closed (.module "水"), .moduleLoaded "水", .bound ⟨0⟩ "色" (.text "青"),
      .raised (.thrown (.text "煙")), .closed (.module "火")] burnt := by
    unfold State.Tells
    decide +kernel
  have hturned : burnt.Tells [.scopeMade ⟨2⟩, .opened (.module "環"), .opened (.attempt "物"),
      .scopeMade ⟨3⟩, .raised (.module (.cyclic "環" ["環"])), .closed (.attempt "物"),
      .closed (.module "環")] turned := by
    unfold State.Tells
    decide +kernel
  obtain ⟨hsession, _, hkept, hloading, hfaults, hfailed⟩ := modules_load_once
  have hburns : ∃ halt, engine.loadModule host "火" State.initial.reset = .error halt burnt := by
    cases hrun : engine.loadModule host "火" State.initial.reset with
    | error halt final => exact ⟨halt, by rw [← after_of_error hrun]⟩
    | ok bindings final =>
        have hloaded := loaded_of_loadModule hrun
        rw [← after_of_ok hrun] at hloaded
        have hnone : (burnt.modules.get? "火").isNone = true := by decide +kernel
        rw [hloaded] at hnone
        cases hnone
  obtain ⟨halt, hburns⟩ := hburns
  obtain ⟨hunloaded, _, events, htells, hothers⟩ := hfailed host 9 "火" _ burnt halt hburns
  obtain rfl := htells.unique hburnt
  obtain ⟨bindings, hwater⟩ := Option.isSome_iff_exists.mp (hothers "水" (by decide))
  obtain ⟨_, _, _, hload⟩ := hfaults host 9
  have hcyclic := hload "環" burnt _ (.cyclic "環" ["環"]) hturned (by decide)
  have hturns : burnt.Continues turned := .loadModule host 9 "環" .refl
  have hreloaded := (hkept burnt turned "水" bindings hturns (.inl hwater) host engine).1
  have hburning : State.initial.reset.Continues burnt := .loadModule host 9 "火" .refl
  obtain ⟨hidle, _⟩ := hsession .initial turned (.loadModule host 9 "環" hburning)
  -- The beginning of the module that attempts to load itself.
  have hnew : burnt.modules.get? "環" = none :=
    Option.isNone_iff_eq_none.mp (by decide +kernel)
  have hfound : host.modules "環" = .ok [.attempt [.importing "環"] "物" []] := rfl
  have hmeets := State.meets_module hnew (by decide +kernel) hfound
  have hinside := (hloading .initial _ "環" ⟨burnt, hburning, .inr ⟨host, hmeets⟩⟩
    List.mem_cons_self host engine).1
  exact ⟨hunloaded, ⟨_, ⟨burnt, hburning, .inr ⟨host, hmeets⟩⟩, rfl, hinside⟩, hcyclic, hidle,
    bindings, hwater, hreloaded⟩

end Engine

end Wabun
