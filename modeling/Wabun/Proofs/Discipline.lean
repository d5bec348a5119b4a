import Wabun.Proofs.Congruence
import Wabun.Proofs.Journal
import Wabun.Proofs.Reachability

/-!
Properties of a run that depend on what it knows. Before a part of a run one may know
something of the values, classes and scopes that it deals with, and after it of its result.
A discipline says what there is to know, and for each single effect how the run goes on
from one state to the next. Then parts obey it that are put together from these effects:
the value of a name, the operators and the builtin functions, and what declarations do.
-/

namespace Wabun

open Run

/-- The value that a halt carries along. -/
def Halt.thrown? : Halt → Option Value
  | .fault (.thrown value) => some value
  | _ => none

/-- What is to hold of the states of a run, how it may go from one to another, and what can
be known in them. A frame is what the statements at hand are run in. -/
structure Discipline where
  Frame : Type
  /-- the frame of the calls, members and modules inside of another one -/
  inner : Frame → Frame
  Sound : Frame → State → Prop
  Passes : Frame → State → State → Prop
  /-- A heap comes later than another one: what is known stays known. -/
  Later : Heap → Heap → Prop
  Knows : Heap → Value → Prop
  KnowsClass : Heap → ClassRef → Prop
  Reads : Frame → Heap → ScopeRef → Prop
  Binds : Frame → Heap → ScopeRef → String → Prop
  -- States and what is known in them
  sound_of_same : ∀ {frame s t}, Sound frame s → t.heap = s.heap → t.modules = s.modules →
    Sound frame t
  sound_inner : ∀ {frame s}, Sound frame s → Sound (inner frame) s
  refl : ∀ {frame s}, Sound frame s → Passes frame s s
  trans : ∀ {frame s t u}, Passes frame s t → Passes frame t u → Passes frame s u
  sound : ∀ {frame s t}, Sound frame s → Passes frame s t → Sound frame t
  later : ∀ {frame s t}, Passes frame s t → Later s.heap t.heap
  later_refl : ∀ heap, Later heap heap
  later_trans : ∀ {heap middle after}, Later heap middle → Later middle after → Later heap after
  knows_later : ∀ {heap after value}, Knows heap value → Later heap after → Knows after value
  knowsClass_later : ∀ {heap after ref}, KnowsClass heap ref → Later heap after →
    KnowsClass after ref
  reads_later : ∀ {frame heap after scope}, Reads frame heap scope → Later heap after →
    Reads frame after scope
  binds_later : ∀ {frame heap after scope name}, Binds frame heap scope name →
    Later heap after → Binds frame after scope name
  reads_inner : ∀ {frame heap scope}, Reads frame heap scope → Reads (inner frame) heap scope
  binds_inner : ∀ {frame heap scope name}, Binds frame heap scope name →
    Binds (inner frame) heap scope name
  knows_plain : ∀ {heap value}, value.object? = none → Knows heap value
  class_of_knows : ∀ {heap ref}, Knows heap (.classObject ref) → KnowsClass heap ref
  -- What is found in a state
  lookUp : ∀ {frame s scope name value}, Sound frame s → Reads frame s.heap scope →
    s.heap.forest.get? scope name = some value → Knows s.heap value
  binding : ∀ {frame s scope} {entry : String × Value}, Sound frame s → Reads frame s.heap scope →
    entry ∈ (s.heap.forest.scope scope).vars.entries → Knows s.heap entry.2
  closure : ∀ {frame s ref}, Sound frame s → Knows s.heap (.procedure ref) →
    Reads (inner frame) s.heap (s.heap.procedure ref).closure
  environment : ∀ {frame s ref}, Sound frame s → KnowsClass s.heap ref →
    Reads (inner frame) s.heap (s.heap.classInfo ref).scope
  lineage : ∀ {frame s ref member}, Sound frame s → KnowsClass s.heap ref →
    member ∈ s.heap.lineage ref → KnowsClass s.heap member
  field : ∀ {frame s ref name value}, Sound frame s → Knows s.heap (.instanceObject ref) →
    (s.heap.instanceInfo ref).fields.get? name = some value → Knows s.heap value
  method : ∀ {frame s ref name method}, Sound frame s → Knows s.heap (.instanceObject ref) →
    s.heap.findMethod? (s.heap.instanceInfo ref).classRef name = some method →
    Knows s.heap (.procedure method)
  static : ∀ {frame s ref name method}, Sound frame s → Knows s.heap (.classObject ref) →
    s.heap.findStatic? ref name = some method → Knows s.heap (.procedure method)
  loaded : ∀ {frame s name bindings}, Sound frame s → s.modules.get? name = some bindings →
    ∀ entry ∈ bindings.entries, Knows s.heap entry.2
  -- Single effects
  tell : ∀ {frame s event}, Sound frame s → event.IsRemark → Passes frame s (s.tell event)
  makeChild : ∀ {frame s parent}, Sound frame s → Reads frame s.heap parent →
    let made := (makeScope (.childOf parent)).after s
    Passes frame s made ∧ Reads frame made.heap ⟨s.heap.forest.size⟩ ∧
      ∀ name, Binds frame made.heap ⟨s.heap.forest.size⟩ name
  makeInner : ∀ {frame s} {scope : Scope}, Sound frame s → scope.vars = ∅ →
    (∀ parent ∈ scope.parent, Reads (inner frame) s.heap parent) →
    let made := (makeScope scope).after s
    Passes frame s made ∧ Reads (inner frame) made.heap ⟨s.heap.forest.size⟩ ∧
      ∀ name, Binds (inner frame) made.heap ⟨s.heap.forest.size⟩ name
  makeProcedure : ∀ {frame s} {procedure : Procedure}, Sound frame s →
    Reads (inner frame) s.heap procedure.closure →
    let made := (makeProcedure procedure).after s
    Passes frame s made ∧ Knows made.heap (.procedure ⟨s.heap.procedures.size⟩)
  makeClass : ∀ {frame s} {info : ClassInfo}, Sound frame s →
    Reads (inner frame) s.heap info.scope →
    (∀ parent ∈ info.parent, Knows s.heap (.classObject parent)) →
    (∀ entry ∈ info.methods.entries, Knows s.heap (.procedure entry.2)) → info.statics = ∅ →
    let made := (make (·.addClass info)).after s
    Passes frame s made ∧ Knows made.heap (.classObject ⟨s.heap.classes.size⟩)
  makeInstance : ∀ {frame s ref}, Sound frame s → KnowsClass s.heap ref →
    let made := (make (·.addInstance ⟨ref, ∅⟩)).after s
    Passes frame s made ∧ Knows made.heap (.instanceObject ⟨s.heap.instances.size⟩)
  makeEnum : ∀ {frame s scope} {info : EnumInfo}, Sound frame s → Reads frame s.heap scope →
    Passes frame s ((make (·.addEnum info)).after s)
  define : ∀ {frame s scope name value}, Sound frame s → Binds (inner frame) s.heap scope name →
    Knows s.heap value → Passes frame s ((define scope name value).after s)
  assign : ∀ {frame s scope name value}, Sound frame s → Binds frame s.heap scope name →
    Knows s.heap value → Passes frame s ((assign scope name value).after s)
  markExported : ∀ {frame s scope name}, Sound frame s → Binds frame s.heap scope name →
    Passes frame s ((markExported scope name).after s)
  setField : ∀ {frame s object name value}, Sound frame s →
    Knows s.heap (.instanceObject object) → Knows s.heap value →
    Passes frame s ((setField object name value).after s)
  setStatic : ∀ {frame s ref name method}, Sound frame s → KnowsClass s.heap ref →
    Knows s.heap (.procedure method) → Passes frame s ((setStatic ref name method).after s)
  -- Parts with a beginning and an end
  call : ∀ {frame s t span}, ¬ span.IsAttempt → Passes (inner frame) (s.enter span) t →
    Passes frame s (t.leave span)
  attempt : ∀ {frame s t caught}, Passes frame (s.tell (.opened (.attempt caught))) t →
    Passes frame s (t.tell (.closed (.attempt caught)))
  module : ∀ {frame s t name}, Passes (inner frame) (s.tell (.opened (.module name))) t →
    Passes frame s (t.tell (.closed (.module name)))
  moduleFailed : ∀ {frame s t name}, s.modules.get? name = none →
    s.loading.contains name = false → Passes frame { s with loading := name :: s.loading } t →
    Passes frame s (Engine.leaveModule t)
  moduleLoaded : ∀ {frame s t name} {bindings : Table Value}, s.modules.get? name = none →
    s.loading.contains name = false → Passes frame { s with loading := name :: s.loading } t →
    (∀ entry ∈ bindings.entries, Knows t.heap entry.2) →
    Passes frame s { Engine.leaveModule t with
      modules := t.modules.insert name bindings, journal := .moduleLoaded name :: t.journal }

namespace Discipline

/-- The scope can be read and filled at will. -/
def Opens (law : Discipline) (frame : law.Frame) (heap : Heap) (scope : ScopeRef) : Prop :=
  law.Reads frame heap scope ∧ ∀ name, law.Binds frame heap scope name

def KnowsAll (law : Discipline) (heap : Heap) (bindings : Table Value) : Prop :=
  ∀ entry ∈ bindings.entries, law.Knows heap entry.2

/-- What a list of statements can end with. -/
def Returns (law : Discipline) (heap : Heap) (flow : Flow) : Prop :=
  law.Knows heap flow.value

/-- From a sound state the part passes to another one, however it ends. What it gives is as
said, and what it throws is known. -/
def Obeys (law : Discipline) (frame : law.Frame) {α : Type} (post : Heap → α → Prop)
    (part : Run α) (state : State) : Prop :=
  law.Sound frame state →
    (∀ value final, part state = .ok value final →
      law.Passes frame state final ∧ post final.heap value) ∧
    ∀ halt final, part state = .error halt final →
      law.Passes frame state final ∧ ∀ value ∈ halt.thrown?, law.Knows final.heap value

variable {law : Discipline} {frame : law.Frame}

theorem Opens.later {heap other : Heap} {scope : ScopeRef} (h : law.Opens frame heap scope)
    (hlater : law.Later heap other) : law.Opens frame other scope :=
  ⟨law.reads_later h.1 hlater, fun name => law.binds_later (h.2 name) hlater⟩

namespace Obeys

variable {α β : Type} {state : State} {post : Heap → α → Prop} {part : Run α}

theorem of_ok {value : α} {final : State} (hrun : part state = .ok value final)
    (h : law.Sound frame state → law.Passes frame state final ∧ post final.heap value) :
    law.Obeys frame post part state := by
  intro hstate
  refine ⟨fun value' final' hrun' => ?_, fun halt final' hrun' => ?_⟩
  · rw [hrun] at hrun'
    cases hrun'
    exact h hstate
  · rw [hrun] at hrun'
    cases hrun'

theorem of_error {halt : Halt} {final : State} (hrun : part state = .error halt final)
    (h : law.Sound frame state → law.Passes frame state final ∧
      ∀ value ∈ halt.thrown?, law.Knows final.heap value) :
    law.Obeys frame post part state := by
  intro hstate
  refine ⟨fun value' final' hrun' => ?_, fun halt' final' hrun' => ?_⟩
  · rw [hrun] at hrun'
    cases hrun'
  · rw [hrun] at hrun'
    cases hrun'
    exact h hstate

theorem after (h : law.Obeys frame post part state) (hstate : law.Sound frame state) :
    law.Passes frame state (part.after state) := by
  obtain ⟨hok, herror⟩ := h hstate
  cases hrun : part state with
  | ok value final =>
      rw [after_of_ok hrun]
      exact (hok value final hrun).1
  | error halt final =>
      rw [after_of_error hrun]
      exact (herror halt final hrun).1

theorem pure {value : α} (h : post state.heap value) :
    law.Obeys frame post (Pure.pure value) state :=
  of_ok rfl fun hstate => ⟨law.refl hstate, h⟩

/-- An answer that depends on the state. -/
theorem ask {question : Heap → α}
    (h : law.Sound frame state → post state.heap (question state.heap)) :
    law.Obeys frame post (Run.ask question) state :=
  of_ok rfl fun hstate => ⟨law.refl hstate, h hstate⟩

/-- An answer of which nothing has to be known. -/
theorem consult {question : Heap → α} :
    law.Obeys frame (fun _ _ => True) (Run.ask question) state :=
  ask fun _ => trivial

theorem raise {fault : Fault}
    (h : ∀ value ∈ (Halt.fault fault).thrown?, law.Knows state.heap value) :
    law.Obeys frame post (Run.raise fault) state :=
  of_error rfl fun hstate => ⟨law.tell hstate trivial, h⟩

theorem raise_plain {fault : Fault} (h : (Halt.fault fault).thrown? = none) :
    law.Obeys frame post (Run.raise fault) state := by
  refine raise fun value hvalue => ?_
  rw [h] at hvalue
  cases hvalue

theorem outOfFuel : law.Obeys frame post Run.outOfFuel state :=
  of_error rfl fun hstate => ⟨law.refl hstate, fun _ hvalue => by cases hvalue⟩

theorem record {event : Event} (h : event.IsRemark) :
    law.Obeys frame (fun _ _ => True) (Run.record event) state :=
  of_ok rfl fun hstate => ⟨law.tell hstate h, trivial⟩

/-- A part that goes on as another one does, from a state that it has passed to. -/
theorem of_eq {other : Run α} {middle : State} (hrun : part state = other middle)
    (h : law.Sound frame state → law.Passes frame state middle ∧
      law.Obeys frame post other middle) :
    law.Obeys frame post part state := by
  intro hstate
  obtain ⟨hmiddle, hother⟩ := h hstate
  obtain ⟨hok, herror⟩ := hother (law.sound hstate hmiddle)
  rw [hrun]
  refine ⟨fun value final hfinal => ?_, fun halt final hfinal => ?_⟩
  · exact (hok value final hfinal).imp (law.trans hmiddle) id
  · exact (herror halt final hfinal).imp (law.trans hmiddle) id

theorem bind {middle : Heap → β → Prop} {first : Run β} {next : β → Run α}
    (hfirst : law.Obeys frame middle first state)
    (hnext : ∀ value later, law.Later state.heap later.heap → middle later.heap value →
      law.Obeys frame post (next value) later) :
    law.Obeys frame post (first >>= next) state := by
  intro hstate
  obtain ⟨hok, herror⟩ := hfirst hstate
  cases hrun : first state with
  | ok value later =>
      obtain ⟨hlater, hvalue⟩ := hok value later hrun
      have hrest := hnext value later (law.later hlater) hvalue
      exact of_eq (bind_of_ok hrun) (fun _ => ⟨hlater, hrest⟩) hstate
  | error halt later =>
      exact of_error (bind_of_error hrun) (fun _ => herror halt later hrun) hstate

/-- A part between two changes of the state that leave the heap and the loaded modules. -/
theorem between {inside : law.Frame} {enter leave : State → State}
    (henter : law.Sound frame state → law.Sound inside (enter state))
    (hleave : ∀ later, law.Passes inside (enter state) later →
      law.Passes frame state (leave later) ∧ (leave later).heap = later.heap)
    (h : law.Obeys inside post part (enter state)) :
    law.Obeys frame post (Run.between enter leave part) state := by
  intro hstate
  obtain ⟨hok, herror⟩ := h (henter hstate)
  cases hrun : part (enter state) with
  | ok value later =>
      obtain ⟨hlater, hpost⟩ := hok value later hrun
      obtain ⟨hpasses, hheap⟩ := hleave later hlater
      exact of_ok (between_of_ok hrun) (fun _ => ⟨hpasses, hheap ▸ hpost⟩) hstate
  | error halt later =>
      obtain ⟨hlater, hthrown⟩ := herror halt later hrun
      obtain ⟨hpasses, hheap⟩ := hleave later hlater
      exact of_error (between_of_error hrun) (fun _ => ⟨hpasses, hheap ▸ hthrown⟩) hstate

theorem attempt {caught : String}
    (h : law.Obeys frame post part (state.tell (.opened (.attempt caught)))) :
    law.Obeys frame post (during (.attempt caught) part) state :=
  between (fun hstate => law.sound_of_same hstate rfl rfl)
    (fun _ hlater => ⟨law.attempt hlater, rfl⟩) h

theorem module {name : String}
    (h : law.Obeys (law.inner frame) post part (state.tell (.opened (.module name)))) :
    law.Obeys frame post (during (.module name) part) state :=
  between (fun hstate => law.sound_of_same (law.sound_inner hstate) rfl rfl)
    (fun _ hlater => ⟨law.module hlater, rfl⟩) h

/-- A call or the members of a class. -/
theorem nested {host : Host} {span : Span} (hspan : ¬ span.IsAttempt)
    (h : law.Obeys (law.inner frame) post part (state.enter span)) :
    law.Obeys frame post (Run.nested host span part) state := by
  by_cases hfull : host.maxDepth ≤ state.depth
  · refine of_eq (nested_of_full hfull span part) fun hstate => ⟨law.refl hstate, ?_⟩
    exact raise_plain rfl
  · refine of_eq (nested_of_room hfull span part) fun hstate => ⟨law.refl hstate, ?_⟩
    exact between (fun hstate => law.sound_of_same (law.sound_inner hstate) rfl rfl)
      (fun _ hlater => ⟨law.call hspan hlater, rfl⟩) h

/-! ### Lists -/

theorem forM {action : α → Run PUnit} {items : List α}
    (h : ∀ item ∈ items, ∀ later : State, law.Later state.heap later.heap →
      law.Obeys frame (fun _ _ => True) (action item) later) :
    law.Obeys frame (fun _ _ => True) (items.forM action) state := by
  induction items generalizing state with
  | nil => exact pure trivial
  | cons item rest ih =>
      have hitem := h item List.mem_cons_self state (law.later_refl _)
      refine bind hitem fun _ later hlater _ => ?_
      refine ih fun other hmem last hlast => ?_
      exact h other (List.mem_cons_of_mem item hmem) last (law.later_trans hlater hlast)

theorem mapM {action : β → Run α} {items : List β}
    (hpost : ∀ before after value, law.Later before after → post before value → post after value)
    (h : ∀ item ∈ items, ∀ later : State, law.Later state.heap later.heap →
      law.Obeys frame post (action item) later) :
    law.Obeys frame (fun heap values => ∀ value ∈ values, post heap value)
      (items.mapM action) state := by
  induction items generalizing state with
  | nil => exact pure fun value hmem => by cases hmem
  | cons item rest ih =>
      rw [List.mapM_cons]
      have hitem := h item List.mem_cons_self state (law.later_refl _)
      refine bind hitem fun first later hlater hfirst => ?_
      have hrest : ∀ other ∈ rest, ∀ last : State, law.Later later.heap last.heap →
          law.Obeys frame post (action other) last :=
        fun other hmem last hlast =>
          h other (List.mem_cons_of_mem item hmem) last (law.later_trans hlater hlast)
      refine bind (ih hrest) fun others last hlast hothers => pure fun value hmem => ?_
      rcases List.mem_cons.mp hmem with rfl | hmem
      · exact hpost _ _ _ hlast hfirst
      · exact hothers value hmem

theorem foldlM {action : α → β → Run α} {items : List β} {start : α}
    (hstart : post state.heap start)
    (h : ∀ value item later, post later.heap value →
      law.Obeys frame post (action value item) later) :
    law.Obeys frame post (items.foldlM action start) state := by
  induction items generalizing state start with
  | nil => exact pure hstart
  | cons item rest ih =>
      exact bind (h start item state hstart) fun value later _ hvalue => ih hvalue

/-! ### Effects on the heap -/

theorem makeChild {parent : ScopeRef} (h : law.Reads frame state.heap parent) :
    law.Obeys frame (law.Opens frame) (Run.makeScope (.childOf parent)) state :=
  of_ok rfl fun hstate => law.makeChild hstate h

theorem makeInner {scope : Scope} (hvars : scope.vars = ∅)
    (h : ∀ parent ∈ scope.parent, law.Reads (law.inner frame) state.heap parent) :
    law.Obeys frame (law.Opens (law.inner frame)) (Run.makeScope scope) state :=
  of_ok rfl fun hstate => law.makeInner hstate hvars h

theorem makeProcedure {procedure : Procedure}
    (h : law.Reads (law.inner frame) state.heap procedure.closure) :
    law.Obeys frame (fun heap ref => law.Knows heap (.procedure ref))
      (Run.makeProcedure procedure) state :=
  of_ok rfl fun hstate => law.makeProcedure hstate h

theorem define {scope : ScopeRef} {name : String} {value : Value}
    (h : law.Binds (law.inner frame) state.heap scope name) (hvalue : law.Knows state.heap value) :
    law.Obeys frame (fun _ _ => True) (Run.define scope name value) state :=
  of_ok rfl fun hstate => ⟨law.define hstate h hvalue, trivial⟩

theorem defineAll {scope : ScopeRef} {bindings : List (String × Value)}
    (h : ∀ name, law.Binds (law.inner frame) state.heap scope name)
    (hbindings : ∀ binding ∈ bindings, law.Knows state.heap binding.2) :
    law.Obeys frame (fun _ _ => True) (Run.defineAll scope bindings) state :=
  forM fun binding hmem _ hlater =>
    define (law.binds_later (h _) hlater) (law.knows_later (hbindings binding hmem) hlater)

theorem setField {object : InstanceRef} {name : String} {value : Value}
    (hobject : law.Knows state.heap (.instanceObject object))
    (hvalue : law.Knows state.heap value) :
    law.Obeys frame (fun _ _ => True) (Run.setField object name value) state :=
  of_ok rfl fun hstate => ⟨law.setField hstate hobject hvalue, trivial⟩

theorem emit {value : Value} :
    law.Obeys frame (fun _ _ => True) (Run.emit value) state :=
  bind consult fun _ _ _ _ => record trivial

/-! ### Names and operators -/

theorem bindReceiver {method : ProcedureRef} {receiver : Value}
    (hmethod : law.Knows state.heap (.procedure method))
    (hreceiver : law.Knows state.heap receiver) :
    law.Obeys frame law.Knows (Run.bindReceiver method receiver) state := by
  have hclosure : law.Obeys frame
      (fun heap procedure => law.Reads (law.inner frame) heap procedure.closure)
      (Run.ask (·.procedure method)) state :=
    ask fun hstate => law.closure hstate hmethod
  refine bind hclosure fun procedure s₁ h₁ hclosure => ?_
  refine bind (makeInner rfl fun _ hmem => Option.some.inj hmem ▸ hclosure)
    fun scope s₂ h₂ hscope => ?_
  have hknown := law.knows_later hreceiver (law.later_trans h₁ h₂)
  refine bind (define (hscope.2 _) hknown) fun _ s₃ h₃ _ => ?_
  refine bind (makeProcedure (law.reads_later hscope.1 h₃)) fun bound _ _ hbound => ?_
  exact pure hbound

theorem member {path name : String} {owner : Value} (howner : law.Knows state.heap owner) :
    law.Obeys frame law.Knows (Run.member path owner name) state := by
  cases owner with
  | instanceObject ref =>
      have hfield : law.Obeys frame (fun heap field => ∀ value ∈ field, law.Knows heap value)
          (Run.ask fun heap => (heap.instanceInfo ref).fields.get? name) state :=
        ask fun hstate _ hvalue => law.field hstate howner hvalue
      refine bind hfield fun field later hlater hfield => ?_
      cases field with
      | some value => exact pure (hfield value rfl)
      | none =>
          have hstill := law.knows_later howner hlater
          have hmethod : law.Obeys frame
              (fun heap found => ∀ method ∈ found, law.Knows heap (.procedure method))
              (Run.ask fun heap => heap.findMethod? (heap.instanceInfo ref).classRef name)
              later :=
            ask fun hstate _ hmethod => law.method hstate hstill hmethod
          refine bind hmethod fun found last hlast hmethod => ?_
          cases found with
          | some method => exact bindReceiver (hmethod method rfl) (law.knows_later hstill hlast)
          | none => exact raise_plain rfl
  | enumeration ref =>
      refine bind consult fun found later hlater _ => ?_
      cases found with
      | some ordinal => exact pure (law.knows_plain rfl)
      | none => exact raise_plain rfl
  | classObject ref =>
      have hstatic : law.Obeys frame
          (fun heap found => ∀ method ∈ found, law.Knows heap (.procedure method))
          (Run.ask fun heap => heap.findStatic? ref name) state :=
        ask fun hstate _ hmethod => law.static hstate howner hmethod
      refine bind hstatic fun found later hlater hstatic => ?_
      cases found with
      | some method => exact pure (hstatic method rfl)
      | none => exact raise_plain rfl
  | _ => exact raise_plain rfl

/-- What a name is bound to along the chain. -/
theorem lookUp {scope : ScopeRef} {name : String} (h : law.Reads frame state.heap scope) :
    law.Obeys frame (fun heap found => ∀ value ∈ found, law.Knows heap value)
      (Run.ask fun heap => heap.forest.get? scope name) state :=
  ask fun hstate _ hfound => law.lookUp hstate h hfound

theorem resolve {path : String} {scope : ScopeRef} (h : law.Reads frame state.heap scope) :
    law.Obeys frame law.Knows (Run.resolve path scope) state := by
  refine bind (lookUp h) fun found later hlater hfound => ?_
  cases found with
  | some value => exact foldlM (hfound value rfl) fun _ _ _ howner => member howner
  | none => exact raise_plain rfl

theorem findClass {name : String} {scope : ScopeRef} (h : law.Reads frame state.heap scope) :
    law.Obeys frame (fun heap ref => law.Knows heap (.classObject ref))
      (Run.findClass name scope) state := by
  refine bind (lookUp h) fun found later hlater hfound => ?_
  split
  · exact pure (hfound _ rfl)
  · exact raise_plain rfl

theorem operate {host : Host} {operator : Operator} {left right : Value} :
    law.Obeys frame law.Knows (Run.operate host operator left right) state := by
  cases operator with
  | eq | ne => exact bind consult fun _ _ _ _ => pure (law.knows_plain rfl)
  | add | lt | gt | le | ge =>
      dsimp only [Run.operate]
      split
      · exact pure (law.knows_plain rfl)
      · exact pure (law.knows_plain rfl)
      · exact raise_plain rfl
  | sub | mul | div =>
      dsimp only [Run.operate]
      split
      · exact pure (law.knows_plain rfl)
      · exact raise_plain rfl

/-- No builtin function gives an object. -/
theorem builtin {builtin : Builtin} {scope : ScopeRef} {args : List Value} :
    law.Obeys frame law.Knows (builtin.call scope args) state := by
  unfold Builtin.call
  split
  · exact bind emit fun _ _ _ _ => pure (law.knows_plain rfl)
  · exact raise_plain rfl
  · exact bind consult fun _ _ _ _ => bind emit fun _ _ _ _ => pure (law.knows_plain rfl)
  · exact raise_plain rfl
  · exact pure (law.knows_plain rfl)
  · exact raise_plain rfl
  · exact raise_plain rfl
  · exact raise_plain rfl
  · exact bind (mapM (fun _ _ _ _ => id) fun _ _ _ _ => consult)
      fun _ _ _ _ => pure (law.knows_plain rfl)
  · exact pure (law.knows_plain rfl)
  · exact raise_plain rfl
  · exact raise_plain rfl

/-! ### Declarations -/

theorem attachStatic {classRef : ClassRef} {name : String} {body : List Node} {scope : ScopeRef}
    (hclass : law.KnowsClass state.heap classRef) (hscope : law.Reads frame state.heap scope) :
    law.Obeys frame (fun _ _ => True) (Engine.attachStatic classRef name body scope) state := by
  refine bind consult fun className s₁ h₁ _ => ?_
  refine bind (makeProcedure (law.reads_inner (law.reads_later hscope h₁)))
    fun method s₂ h₂ hmethod => ?_
  have hknown := law.knowsClass_later hclass (law.later_trans h₁ h₂)
  exact of_ok rfl fun hstate => ⟨law.setStatic hstate hknown hmethod, trivial⟩

theorem declareClass {name : String} {parent : Option String} {body : List Node}
    {scope : ScopeRef} (hscope : law.Reads frame state.heap scope)
    (hname : law.Binds frame state.heap scope name) :
    law.Obeys frame (fun _ _ => True) (Engine.declareClass name parent body scope) state := by
  have hparent : law.Obeys frame
      (fun heap found => ∀ parent ∈ found, law.Knows heap (.classObject parent))
      (parent.mapM fun parent => Run.findClass parent scope) state := by
    cases parent with
    | none => exact pure fun _ hmem => by cases hmem
    | some parent =>
        exact bind (findClass hscope) fun ref _ _ href =>
          pure fun _ hmem => Option.some.inj hmem ▸ href
  refine bind hparent fun parent s₁ h₁ hparent => ?_
  split
  · exact raise_plain rfl
  · next sorted _ =>
      have hscope₁ := law.reads_later hscope h₁
      have hmethods : law.Obeys frame
          (fun heap methods => ∀ method ∈ methods, law.Knows heap (.procedure method.2))
          (sorted.methods.mapM fun method => do
            let made ← Run.makeProcedure ⟨method.1, method.2.1, method.2.2, scope⟩
            return (method.1, made)) s₁ :=
        mapM (fun _ _ _ hlater hmethod => law.knows_later hmethod hlater)
          fun method _ later hlater =>
            bind (makeProcedure (law.reads_inner (law.reads_later hscope₁ hlater)))
              fun _ _ _ hmethod => pure hmethod
      refine bind hmethods fun methods s₂ h₂ hmethods => ?_
      have hscope₂ := law.reads_later hscope₁ h₂
      have hmade : law.Obeys frame (fun heap ref => law.Knows heap (.classObject ref))
          (Run.make (·.addClass ⟨name, parent, sorted.members, .ofList methods, ∅, scope⟩)) s₂ :=
        of_ok rfl fun hstate => law.makeClass hstate (law.reads_inner hscope₂)
          (fun parent hmem => law.knows_later (hparent parent hmem) h₂)
          (fun entry hmem => hmethods entry (Table.mem_entries_ofList hmem)) rfl
      refine bind hmade fun classRef s₃ h₃ hclass => ?_
      refine bind (forM fun method _ later hlater =>
        attachStatic (law.class_of_knows (law.knows_later hclass hlater))
          (law.reads_later hscope₂ (law.later_trans h₃ hlater))) fun _ s₄ h₄ _ => ?_
      have hlast := law.later_trans (law.later_trans h₁ h₂) (law.later_trans h₃ h₄)
      exact define (law.binds_inner (law.binds_later hname hlast)) (law.knows_later hclass h₄)

theorem declare {kind : Declaration} {name : String} {value : Value} {scope : ScopeRef}
    (hscope : law.Reads frame state.heap scope)
    (hname : Path.splitLast? name = none → law.Binds frame state.heap scope name)
    (hvalue : law.Knows state.heap value) :
    law.Obeys frame (fun _ _ => True) (Engine.declare kind name value scope) state := by
  unfold Engine.declare
  cases hpath : Path.splitLast? name with
  | some path =>
      refine bind (resolve hscope) fun owner later hlater howner => ?_
      cases owner with
      | instanceObject ref => exact setField howner (law.knows_later hvalue hlater)
      | _ => exact raise_plain rfl
  | none =>
      cases kind with
      | here => exact define (law.binds_inner (hname hpath)) hvalue
      | nearest => exact of_ok rfl fun hstate => ⟨law.assign hstate (hname hpath) hvalue, trivial⟩

end Obeys

end Discipline

end Wabun
