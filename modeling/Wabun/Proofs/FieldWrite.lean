import Wabun.Proofs.Moments
import Wabun.Proofs.Resolution

/-!
Declarations behind a dot. Such a declaration resolves the path before the last dot and
sets one field of the instance that it leads to. It binds no name, whether it is to bind one
here or where it is bound already, and paths that do not lead over the field are resolved as
before. If the path leads to no instance the declaration fails and has changed nothing.
-/

namespace Wabun

open Run

namespace Engine

variable {host : Host} {fuel : Nat} {node : Node} {kind : Declaration} {owner field : String}
  {scope : ScopeRef} {state middle final : State} {value : Value} {halt : Halt}
  {ref : InstanceRef}

/-! ### Single statements -/

theorem declaration_of_ok {name : String}
    (hvalue : (ofFuel host fuel).evaluate node scope state = .ok value middle)
    (h : declare kind name value scope middle = .ok () final) :
    (ofFuel host (fuel + 1)).execute [.variableDeclaration kind name node] scope state =
      .ok .normal final := by
  have hstep : (ofFuel host fuel).statement host fuel (.variableDeclaration kind name node) scope
      state = ((ofFuel host fuel).evaluate node scope >>= _) state := rfl
  rw [execute_singleton, hstep, bind_of_ok hvalue, bind_of_ok h]
  rfl

theorem declaration_of_error {name : String}
    (hvalue : (ofFuel host fuel).evaluate node scope state = .ok value middle)
    (h : declare kind name value scope middle = .error halt final) :
    (ofFuel host (fuel + 1)).execute [.variableDeclaration kind name node] scope state =
      .error halt final := by
  have hstep : (ofFuel host fuel).statement host fuel (.variableDeclaration kind name node) scope
      state = ((ofFuel host fuel).evaluate node scope >>= _) state := rfl
  rw [execute_singleton, hstep, bind_of_ok hvalue, bind_of_error h]

/-! ### Behind a dot -/

theorem declare_of_instance (hfield : '.' ∉ field.toList)
    (h : resolve owner scope state = .ok (.instanceObject ref) state) :
    declare kind (owner ++ "." ++ field) value scope state =
      .ok () (State.tell { state with heap := state.heap.setField ref field value }
        (.fieldSet ref field value)) := by
  unfold declare
  rw [Path.splitLast?_append owner hfield]
  exact bind_of_ok h

theorem declare_of_other (hfield : '.' ∉ field.toList) {other : Value}
    (h : resolve owner scope state = .ok other middle)
    (hother : ∀ ref, other ≠ .instanceObject ref) :
    declare kind (owner ++ "." ++ field) value scope state =
      raise (.type (.noField field other.typeName)) middle := by
  unfold declare
  rw [Path.splitLast?_append owner hfield]
  refine (bind_of_ok h).trans ?_
  cases other with
  | instanceObject ref => exact absurd rfl (hother ref)
  | _ => rfl

theorem declare_of_error (hfield : '.' ∉ field.toList)
    (h : resolve owner scope state = .error halt final) :
    declare kind (owner ++ "." ++ field) value scope state = .error halt final := by
  unfold declare
  rw [Path.splitLast?_append owner hfield]
  exact bind_of_error h

/-- What is set is one field of one instance. -/
theorem setField_spec {heap : Heap} (href : ref.index < heap.instances.size) (field : String)
    (value : Value) :
    ((heap.setField ref field value).instanceInfo ref).classRef = (heap.instanceInfo ref).classRef ∧
    (∀ name, ((heap.setField ref field value).instanceInfo ref).fields.get? name =
      if name = field then some value else (heap.instanceInfo ref).fields.get? name) ∧
    ∀ object, object ≠ .instanceObject ref →
      heap.Agrees (heap.setField ref field value) object := by
  have hinfo := heap.instanceInfo_setField_self href field value
  refine ⟨by rw [hinfo], fun name => ?_, ?_⟩
  · rw [hinfo]
    by_cases hname : name = field
    · rw [if_pos hname, hname]
      exact Table.get?_insert_self _ field value
    · rw [if_neg hname]
      exact Table.get?_insert_of_ne _ hname value
  · exact (Heap.ChangesAt.setField heap ref field value).agrees

/-- After a field was set, the path to it leads to its value, unless the way to the instance
is over the field itself. -/
theorem resolve_of_setsField (hfield : '.' ∉ field.toList)
    (href : ref.index < middle.heap.instances.size)
    (hset : middle.SetsField ref field value final)
    (hresolve : resolve owner scope middle = .ok (.instanceObject ref) middle)
    (havoid : (.instanceObject ref, field) ∉ accesses owner scope middle) :
    resolve (owner ++ "." ++ field) scope final = .ok value final := by
  have hagain : resolve owner scope final = .ok (.instanceObject ref) final := by
    have halike := resolve_setAlike hset havoid
    rw [hresolve] at halike
    generalize hfinal : resolve owner scope final = again at halike
    cases halike with
    | ok => rw [resolve_of_instance hfinal]
  have hwritten : (final.heap.instanceInfo ref).fields.get? field = some value := by
    rw [hset]
    exact ((setField_spec href field value).2.1 field).trans (if_pos rfl)
  exact (resolve_append hfield hagain).trans (member_of_field hwritten)

/-- An instance that a path leads to was made. -/
theorem instance_of_resolve (hstate : state.Sound)
    (h : resolve owner scope state = .ok (.instanceObject ref) final) :
    ref.index < state.heap.instances.size := by
  obtain rfl := resolve_of_instance h
  have hresolve : Discipline.progression.Obeys (0 : Nat) Heap.Made (resolve owner scope) final :=
    .resolve (.free scope)
  exact ((hresolve hstate).1 _ _ h).2

/-- A declaration behind a dot sets a field, and that is all. If the path before the last
dot leads to an instance, the state that the declaration leaves is that in which its value
was given, but for the one field; paths that do not lead over the field are resolved as
before, and the declared path to the value unless the path before the dot does. If that path
leads to no instance, the declaration fails and nothing that there was is changed. -/
theorem dotted_declaration_sets_field (host : Host) (fuel : Nat) (kind : Declaration)
    (owner field : String) (node : Node) (scope : ScopeRef) {state middle : State} {value : Value}
    (hstate : state.Sound) (hfield : '.' ∉ field.toList)
    (hvalue : (ofFuel host fuel).evaluate node scope state = .ok value middle) :
    let name := owner ++ "." ++ field
    let outcome := (ofFuel host (fuel + 1)).execute [.variableDeclaration kind name node] scope state
    (∀ ref, (resolve owner scope).given? middle = some (.instanceObject ref) →
      let final : State := { middle with
        heap := middle.heap.setField ref field value
        journal := .fieldSet ref field value :: middle.journal }
      outcome = .ok .normal final ∧
      (final.heap.instanceInfo ref).classRef = (middle.heap.instanceInfo ref).classRef ∧
      (∀ key, (final.heap.instanceInfo ref).fields.get? key =
        if key = field then some value else (middle.heap.instanceInfo ref).fields.get? key) ∧
      (∀ object, object ≠ .instanceObject ref → middle.heap.Agrees final.heap object) ∧
      (∀ path inner, (.instanceObject ref, field) ∉ accesses path inner middle →
        SetAlike ref field value (resolve path inner middle) (resolve path inner final)) ∧
      ((.instanceObject ref, field) ∉ accesses owner scope middle →
        resolve name scope final = .ok value final)) ∧
    ((∀ ref, (resolve owner scope).given? middle ≠ some (.instanceObject ref)) →
      ∃ halt final, outcome = .error halt final ∧ middle.Spares final) := by
  intro name outcome
  have hengine := Discipline.Governs.ofFuel .progression host fuel
  have hmiddle : middle.Sound := (hengine.advances_of_evaluate hstate hvalue).sound
  constructor
  · intro ref hgiven final
    have hresolve := eq_ok_of_given? hgiven
    have hsame := resolve_of_instance hresolve
    rw [hsame] at hresolve
    have href := instance_of_resolve hmiddle hresolve
    obtain ⟨hclass, hfields, hothers⟩ := setField_spec href field value
    have hset : middle.SetsField ref field value final := rfl
    refine ⟨declaration_of_ok hvalue (declare_of_instance hfield hresolve), hclass, hfields, hothers,
      fun path inner havoid => resolve_setAlike hset havoid, fun havoid => ?_⟩
    exact resolve_of_setsField hfield href hset hresolve havoid
  · intro hnone
    have hspares := spares_resolve owner scope middle
    cases hresolve : resolve owner scope middle with
    | error halt final =>
        rw [after_of_error hresolve] at hspares
        exact ⟨halt, final, declaration_of_error hvalue (declare_of_error hfield hresolve), hspares⟩
    | ok other final =>
        rw [after_of_ok hresolve] at hspares
        have hother : ∀ ref, other ≠ .instanceObject ref := by
          rintro ref rfl
          refine hnone ref ?_
          rw [given?, hresolve]
        have hraise : declare kind name value scope middle = _ :=
          declare_of_other hfield hresolve hother
        exact ⟨_, _, declaration_of_error hvalue hraise, hspares.trans (spares_raise _ final)⟩

/-- An instance that holds itself. -/
def selfHolding : List Node :=
  [.classDeclaration "物" none [], .variableDeclaration .here "甲" (.create "物"),
    .variableDeclaration .here "甲.己" (.identifier "甲")]

theorem dotted_declaration_sets_field_selfHolding :
    let state := ((ofFuel Host.standard 9).execute selfHolding ⟨0⟩).after (Run.root.after .initial)
    let declaring (name : String) := (ofFuel Host.standard 9).execute
      [.variableDeclaration .nearest name (.literal (.text "新"))] ⟨0⟩ state
    state.Sound ∧
    (∃ final, declaring ("甲.己" ++ "." ++ "値") = .ok .normal final ∧
      resolve ("甲.己" ++ "." ++ "値") ⟨0⟩ final = .ok (.text "新") final ∧
      (final.heap.instanceInfo ⟨0⟩).fields.get? "己" = some (.instanceObject ⟨0⟩)) ∧
    ∃ halt final, declaring ("乙" ++ "." ++ "値") = .error halt final ∧ state.Spares final := by
  intro state declaring
  have hstate : state.Sound := State.Reached.sound (.execute _ _ _ _ (.root .initial))
  have hvalue : (ofFuel Host.standard 8).evaluate (.literal (.text "新")) ⟨0⟩ state =
    .ok (.text "新") state := rfl
  have hset := dotted_declaration_sets_field Host.standard 8 .nearest "甲.己" "値" _ ⟨0⟩ hstate
    (by decide) hvalue
  have hfail := dotted_declaration_sets_field Host.standard 8 .nearest "乙" "値" _ ⟨0⟩ hstate
    (by decide) hvalue
  obtain ⟨hrun, _, hfields, _, _, hread⟩ := hset.1 ⟨0⟩ (by decide +kernel)
  refine ⟨hstate, ⟨_, hrun, hread (by decide +kernel), ?_⟩, hfail.2 fun ref => ?_⟩
  · exact (hfields "己").trans (by decide +kernel)
  · have hnone : ((resolve "乙" ⟨0⟩).given? state).isNone = true := by decide +kernel
    rw [Option.isNone_iff_eq_none.mp hnone]
    simp

end Engine

end Wabun
