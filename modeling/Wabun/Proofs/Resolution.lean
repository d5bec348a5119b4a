import Wabun.Proofs.Effects
import Wabun.Proofs.Frame
import Wabun.Proofs.Paths
import Wabun.Proofs.Tandem

/-!
How a path is resolved. The way along a path is a sequence of accesses, each to a member of
a value. It reads one field or looks one method up for each of them, and the only thing it
makes is a method that is bound to its receiver, which has no members of its own. So a path
that leads to an instance leaves the state as it is, and a field can be set without any
consequence for the paths on whose way it is not.
-/

namespace Wabun

open Run

namespace Run

/-- The accesses to members on the way from a value, each with the value that has the
member. -/
def accessesFrom (path : String) : Value → List String → State → List (Value × String)
  | _, [], _ => []
  | owner, name :: rest, state =>
    (owner, name) ::
      match member path owner name state with
      | .ok next later => accessesFrom path next rest later
      | .error _ _ => []

/-- The accesses to members on the way along a path. -/
def accesses (path : String) (scope : ScopeRef) (state : State) : List (Value × String) :=
  match state.heap.forest.get? scope (Path.segments path).1 with
  | some value => accessesFrom path value (Path.segments path).2 state
  | none => []

variable {path name : String} {scope : ScopeRef} {owner value : Value} {state : State}

section Equations

variable {ref : InstanceRef} {method : ProcedureRef}

theorem ask_of_eq {α : Type} {question : Heap → α} {answer : α} (h : question state.heap = answer) :
    ask question state = .ok answer state :=
  congrArg (EStateM.Result.ok · state) h

theorem resolve_of_bound (h : state.heap.forest.get? scope (Path.segments path).1 = some value) :
    resolve path scope state = (Path.segments path).2.foldlM (member path) value state := by
  have hask : ask (fun heap => heap.forest.get? scope (Path.segments path).1) state =
    .ok (some value) state := ask_of_eq h
  exact bind_of_ok hask

theorem resolve_of_unbound (h : state.heap.forest.get? scope (Path.segments path).1 = none) :
    resolve path scope state = raise (.undefined (Path.segments path).1) state := by
  have hask : ask (fun heap => heap.forest.get? scope (Path.segments path).1) state =
    .ok none state := ask_of_eq h
  exact bind_of_ok hask

theorem member_of_field (h : (state.heap.instanceInfo ref).fields.get? name = some value) :
    member path (.instanceObject ref) name state = .ok value state := by
  have hask : ask (fun heap => (heap.instanceInfo ref).fields.get? name) state =
    .ok (some value) state := ask_of_eq h
  exact bind_of_ok hask

/-- Without a field of that name it depends on the methods. -/
theorem member_of_no_field (hfield : (state.heap.instanceInfo ref).fields.get? name = none)
    {found : Option ProcedureRef}
    (h : state.heap.findMethod? (state.heap.instanceInfo ref).classRef name = found) :
    member path (.instanceObject ref) name state =
      (found.elim (raise (.undefined path)) (bindReceiver · (.instanceObject ref))) state := by
  have hask : ask (fun heap => (heap.instanceInfo ref).fields.get? name) state =
    .ok none state := ask_of_eq hfield
  have hlook : ask (fun heap => heap.findMethod? (heap.instanceInfo ref).classRef name) state =
    .ok found state := ask_of_eq h
  refine (bind_of_ok hask).trans ((bind_of_ok hlook).trans ?_)
  cases found with
  | some method => rfl
  | none => rfl

theorem member_of_enumeration {ref : EnumRef} {found : Option Nat}
    (h : (state.heap.enumInfo ref).ordinals.get? name = found) :
    member path (.enumeration ref) name state =
      (found.elim (raise (.undefined path)) fun ordinal => pure (.number (.ofNat ordinal)))
        state := by
  have hask : ask (fun heap => (heap.enumInfo ref).ordinals.get? name) state = .ok found state :=
    ask_of_eq h
  refine (bind_of_ok hask).trans ?_
  cases found with
  | some ordinal => rfl
  | none => rfl

theorem member_of_class {ref : ClassRef} {found : Option ProcedureRef}
    (h : state.heap.findStatic? ref name = found) :
    member path (.classObject ref) name state =
      (found.elim (raise (.undefined path)) fun method => pure (.procedure method)) state := by
  have hask : ask (fun heap => heap.findStatic? ref name) state = .ok found state := ask_of_eq h
  refine (bind_of_ok hask).trans ?_
  cases found with
  | some method => rfl
  | none => rfl

end Equations

end Run

/-! ### Setting a field -/

namespace Heap

variable (heap : Heap) {ref other : InstanceRef} {field name : String}

theorem get?_fields_setField_of_ne (h : ¬ (other = ref ∧ name = field)) (value : Value) :
    ((heap.setField ref field value).instanceInfo other).fields.get? name =
      (heap.instanceInfo other).fields.get? name := by
  rcases heap.instanceInfo_setField_cases ref other field value with hsame | ⟨rfl, hchanged⟩
  · rw [hsame]
  · rw [hchanged]
    exact Table.get?_insert_of_ne _ (fun hname => h ⟨rfl, hname⟩) value

theorem classRef_setField (ref other : InstanceRef) (field : String) (value : Value) :
    ((heap.setField ref field value).instanceInfo other).classRef =
      (heap.instanceInfo other).classRef := by
  rcases heap.instanceInfo_setField_cases ref other field value with hsame | ⟨_, hchanged⟩
  · rw [hsame]
  · rw [hchanged]

theorem ancestry_setField (ref : InstanceRef) (field : String) (value : Value)
    (classRef : ClassRef) :
    (heap.setField ref field value).ancestry classRef = heap.ancestry classRef := by
  have hparents : ∀ other, ((heap.setField ref field value).classInfo other).parent =
    (heap.classInfo other).parent := fun _ => rfl
  exact ancestry_eq_of_parents hparents classRef

theorem findMethod?_setField (ref : InstanceRef) (field : String) (value : Value)
    (classRef : ClassRef) (name : String) :
    (heap.setField ref field value).findMethod? classRef name = heap.findMethod? classRef name := by
  unfold findMethod?
  rw [ancestry_setField]
  rfl

theorem findStatic?_setField (ref : InstanceRef) (field : String) (value : Value)
    (classRef : ClassRef) (name : String) :
    (heap.setField ref field value).findStatic? classRef name = heap.findStatic? classRef name := by
  unfold findStatic?
  rw [ancestry_setField]
  rfl

end Heap

/-- The second state has the heap of the first one, but for a field that is set. -/
def State.SetsField (ref : InstanceRef) (field : String) (value : Value) (before after : State) :
    Prop :=
  after.heap = before.heap.setField ref field value

namespace Run

section SetsField

variable {α β : Type} {related : State → State → Prop} {s t : State} {path name field : String}
  {ref : InstanceRef} {owner value : Value} {scope : ScopeRef}

theorem EndsAlike.bind {halts : Halt → Prop} {part : Run α} {next : α → Run β}
    (h : EndsAlike related halts (part s) (part t))
    (hnext : ∀ value s' t', part s = .ok value s' → related s' t' →
      EndsAlike related halts (next value s') (next value t')) :
    EndsAlike related halts ((part >>= next) s) ((part >>= next) t) := by
  generalize hs : part s = result at h
  generalize ht : part t = result' at h
  cases h with
  | ok h =>
      rw [bind_of_ok hs, bind_of_ok ht]
      exact hnext _ _ _ hs h
  | error hhalts h =>
      rw [bind_of_error hs, bind_of_error ht]
      exact .error hhalts h

/-- The outcomes are the same but for a field that is set. -/
abbrev SetAlike (ref : InstanceRef) (field : String) (value : Value) :
    EStateM.Result Halt State α → EStateM.Result Halt State α → Prop :=
  EndsAlike (State.SetsField ref field value) fun _ => True

theorem bindReceiver_setAlike {method : ProcedureRef} (hset : s.SetsField ref field value t) :
    SetAlike ref field value (bindReceiver method owner s)
      (bindReceiver method owner t) := by
  obtain ⟨heap, modules, loading, depth, journal⟩ := t
  obtain rfl : heap = s.heap.setField ref field value := hset
  exact .ok rfl

/-- A member is found as before, unless it is the field that is set. -/
theorem member_setAlike (hset : s.SetsField ref field value t)
    (h : (owner, name) ≠ (.instanceObject ref, field)) :
    SetAlike ref field value (member path owner name s)
      (member path owner name t) := by
  cases owner with
  | instanceObject object =>
      have hne : ¬ (object = ref ∧ name = field) := by
        rintro ⟨rfl, rfl⟩
        exact h rfl
      have hfields : (t.heap.instanceInfo object).fields.get? name =
          (s.heap.instanceInfo object).fields.get? name := by
        rw [hset, Heap.get?_fields_setField_of_ne _ hne]
      have hmethods : t.heap.findMethod? (t.heap.instanceInfo object).classRef name =
          s.heap.findMethod? (s.heap.instanceInfo object).classRef name := by
        rw [hset, Heap.findMethod?_setField, Heap.classRef_setField]
      cases hfield : (s.heap.instanceInfo object).fields.get? name with
      | some found =>
          rw [member_of_field hfield, member_of_field (hfields.trans hfield)]
          exact .ok hset
      | none =>
          rw [member_of_no_field hfield rfl, member_of_no_field (hfields.trans hfield) hmethods]
          cases s.heap.findMethod? (s.heap.instanceInfo object).classRef name with
          | none => exact .error trivial hset
          | some method => exact bindReceiver_setAlike hset
  | enumeration object =>
      have hordinals : (t.heap.enumInfo object).ordinals.get? name =
          (s.heap.enumInfo object).ordinals.get? name := by
        rw [hset]
        rfl
      rw [member_of_enumeration rfl, member_of_enumeration hordinals]
      cases (s.heap.enumInfo object).ordinals.get? name with
      | none => exact .error trivial hset
      | some ordinal => exact .ok hset
  | classObject object =>
      have hstatics : t.heap.findStatic? object name = s.heap.findStatic? object name := by
        rw [hset, Heap.findStatic?_setField]
      rw [member_of_class rfl, member_of_class hstatics]
      cases s.heap.findStatic? object name with
      | none => exact .error trivial hset
      | some method => exact .ok hset
  | _ => exact .error trivial hset

theorem foldlM_member_setAlike {members : List String} (hset : s.SetsField ref field value t)
    (h : (.instanceObject ref, field) ∉ accessesFrom path owner members s) :
    SetAlike ref field value (members.foldlM (member path) owner s)
      (members.foldlM (member path) owner t) := by
  induction members generalizing owner s t with
  | nil => exact .ok hset
  | cons name rest ih =>
      rw [accessesFrom, List.mem_cons, not_or] at h
      obtain ⟨hfirst, hrest⟩ := h
      rw [List.foldlM_cons]
      refine .bind (member_setAlike hset (Ne.symm hfirst)) fun next s' t' hnext hset' => ?_
      rw [hnext] at hrest
      exact ih hset' hrest

/-- A path resolves as before, unless the field that is set is on its way. -/
theorem resolve_setAlike (hset : s.SetsField ref field value t)
    (h : (.instanceObject ref, field) ∉ accesses path scope s) :
    SetAlike ref field value (resolve path scope s) (resolve path scope t) := by
  have hforest : t.heap.forest = s.heap.forest := by
    rw [hset]
    rfl
  unfold accesses at h
  cases hhead : s.heap.forest.get? scope (Path.segments path).1 with
  | none =>
      rw [resolve_of_unbound hhead, resolve_of_unbound (hforest.symm ▸ hhead)]
      exact .error trivial hset
  | some start =>
      rw [hhead] at h
      rw [resolve_of_bound hhead, resolve_of_bound (hforest.symm ▸ hhead)]
      exact foldlM_member_setAlike hset h

end SetsField

end Run

/-! ### What resolving a path leaves behind -/

/-- Between the two states nothing was changed that existed before, and nothing was shown.
There may be new scopes and procedures. -/
structure State.Spares (before after : State) : Prop where
  objects : ∀ object, before.heap.Has object →
    after.heap.Has object ∧ before.heap.Agrees after.heap object
  classes : after.heap.classes = before.heap.classes
  instances : after.heap.instances = before.heap.instances
  enums : after.heap.enums = before.heap.enums
  modules : after.modules = before.modules
  loading : after.loading = before.loading
  depth : after.depth = before.depth
  shown : after.shown = before.shown

namespace State.Spares

variable {before middle after : State}

theorem refl (state : State) : state.Spares state where
  objects object hhas := by
    refine ⟨hhas, ?_⟩
    cases object with
    | scope | procedure | classObject | instanceObject => rfl
  classes := rfl
  instances := rfl
  enums := rfl
  modules := rfl
  loading := rfl
  depth := rfl
  shown := rfl

theorem trans (h : before.Spares middle) (h' : middle.Spares after) : before.Spares after where
  objects object hhas := by
    obtain ⟨hmiddle, hagrees⟩ := h.objects object hhas
    obtain ⟨hafter, hagrees'⟩ := h'.objects object hmiddle
    exact ⟨hafter, hagrees.trans hagrees'⟩
  classes := h'.classes.trans h.classes
  instances := h'.instances.trans h.instances
  enums := h'.enums.trans h.enums
  modules := h'.modules.trans h.modules
  loading := h'.loading.trans h.loading
  depth := h'.depth.trans h.depth
  shown := h'.shown.trans h.shown

end State.Spares

namespace Run

variable {path name : String} {scope : ScopeRef} {owner value : Value} {state final : State}
  {ref : InstanceRef} {members : List String}

theorem spares_raise (fault : Fault) (state : State) :
    state.Spares ((raise fault : Run Value).after state) where
  objects := (State.Spares.refl state).objects
  classes := rfl
  instances := rfl
  enums := rfl
  modules := rfl
  loading := rfl
  depth := rfl
  shown := by simp [raise, Run.after, State.shown, State.tell]

/-- A method that is bound has a scope and a procedure of its own. -/
theorem spares_bindReceiver (method : ProcedureRef) (receiver : Value) (state : State) :
    state.Spares ((bindReceiver method receiver).after state) where
  objects object hhas := by
    let scope : ScopeRef := ⟨state.heap.forest.size⟩
    let closure := (state.heap.procedure method).closure
    let grown := (state.heap.addScope (.childOf closure)).2
    let bound : Heap := { grown with forest := grown.forest.define scope Word.self receiver }
    have hscope : object ≠ .scope scope := by
      rintro rfl
      exact Nat.lt_irrefl _ hhas
    have hprocedure : object ≠ .procedure ⟨bound.procedures.size⟩ := by
      rintro rfl
      exact Nat.lt_irrefl _ hhas
    have hgrown := Heap.ChangesAt.addScope state.heap (.childOf closure)
    have hbound : Heap.ChangesAt (.scope scope) grown bound := .modifyScope grown scope _
    have hadded := Heap.ChangesAt.addProcedure bound
      { state.heap.procedure method with closure := scope }
    refine ⟨hadded.grows _ (hbound.grows _ (hgrown.grows _ hhas)), ?_⟩
    exact ((hgrown.agrees object hscope).trans (hbound.agrees object hscope)).trans
      (hadded.agrees object hprocedure)
  classes := rfl
  instances := rfl
  enums := rfl
  modules := rfl
  loading := rfl
  depth := rfl
  shown := by
    change State.shown { (bindReceiver method receiver).after state with
      journal := .bound _ _ _ :: .scopeMade _ :: state.journal } = _
    simp [State.shown]

/-- A member is there, or is missing, or is a method that gets bound. The path is for the
fault only. -/
theorem member_cases (owner : Value) (name : String) (state : State) :
    (∃ value, ∀ path, member path owner name state = .ok value state) ∨
    (∃ fault : String → Fault, ∀ path, member path owner name state = raise (fault path) state) ∨
    ∃ method, ∀ path, member path owner name state = bindReceiver method owner state := by
  cases owner with
  | instanceObject object =>
      cases hfield : (state.heap.instanceInfo object).fields.get? name with
      | some found => exact .inl ⟨found, fun path => member_of_field hfield⟩
      | none =>
          simp only [member_of_no_field hfield rfl]
          cases state.heap.findMethod? (state.heap.instanceInfo object).classRef name with
          | none => exact .inr (.inl ⟨_, fun _ => rfl⟩)
          | some method => exact .inr (.inr ⟨method, fun _ => rfl⟩)
  | enumeration object =>
      simp only [member_of_enumeration rfl]
      cases (state.heap.enumInfo object).ordinals.get? name with
      | none => exact .inr (.inl ⟨_, fun _ => rfl⟩)
      | some ordinal => exact .inl ⟨_, fun _ => rfl⟩
  | classObject object =>
      simp only [member_of_class rfl]
      cases state.heap.findStatic? object name with
      | none => exact .inr (.inl ⟨_, fun _ => rfl⟩)
      | some method => exact .inl ⟨_, fun _ => rfl⟩
  | _ => exact .inr (.inl ⟨_, fun _ => rfl⟩)

theorem spares_member (path : String) (owner : Value) (name : String) (state : State) :
    state.Spares ((member path owner name).after state) := by
  rcases member_cases owner name state with ⟨value, hrun⟩ | ⟨fault, hrun⟩ | ⟨method, hrun⟩
  · rw [after_of_ok (hrun path)]
    exact .refl state
  · rw [Run.after, hrun]
    exact spares_raise (fault path) state
  · rw [Run.after, hrun]
    exact spares_bindReceiver method owner state

theorem spares_foldlM_member (path : String) (members : List String) (owner : Value)
    (state : State) : state.Spares ((members.foldlM (member path) owner).after state) := by
  induction members generalizing owner state with
  | nil => exact .refl state
  | cons name rest ih =>
      rw [List.foldlM_cons]
      have hfirst := spares_member path owner name state
      cases hrun : member path owner name state with
      | ok next later =>
          rw [after_of_ok hrun] at hfirst
          rw [after_bind_of_ok hrun]
          exact hfirst.trans (ih next later)
      | error halt later =>
          rw [after_of_error hrun] at hfirst
          rw [after_bind_of_error hrun]
          exact hfirst

theorem spares_resolve (path : String) (scope : ScopeRef) (state : State) :
    state.Spares ((resolve path scope).after state) := by
  cases hhead : state.heap.forest.get? scope (Path.segments path).1 with
  | none =>
      rw [Run.after, resolve_of_unbound hhead]
      exact spares_raise _ state
  | some start =>
      rw [Run.after, resolve_of_bound hhead]
      exact spares_foldlM_member path (Path.segments path).2 start state

/-- Only a method that is bound is new. -/
theorem member_eq_or_procedure (h : member path owner name state = .ok value final) :
    final = state ∨ ∃ method, value = .procedure method := by
  rcases member_cases owner name state with ⟨found, hrun⟩ | ⟨fault, hrun⟩ | ⟨method, hrun⟩
  · rw [hrun] at h
    cases h
    exact .inl rfl
  · rw [hrun] at h
    cases h
  · rw [hrun] at h
    cases h
    exact .inr ⟨_, rfl⟩

theorem member_of_path (h : member path owner name state = .ok value final) (other : String) :
    member other owner name state = .ok value final := by
  rcases member_cases owner name state with ⟨found, hrun⟩ | ⟨fault, hrun⟩ | ⟨method, hrun⟩
  · rwa [hrun] at h ⊢
  · rw [hrun] at h
    cases h
  · rwa [hrun] at h ⊢

theorem foldlM_member_of_path (h : members.foldlM (member path) owner state = .ok value final)
    (other : String) : members.foldlM (member other) owner state = .ok value final := by
  induction members generalizing owner state with
  | nil => exact h
  | cons name rest ih =>
      rw [List.foldlM_cons] at h ⊢
      obtain ⟨next, later, hrun, hrest⟩ := exists_of_bind_ok h
      rw [bind_of_ok (member_of_path hrun other)]
      exact ih hrest

/-- A procedure has no members, so nothing new is on the way to an instance. -/
theorem foldlM_member_of_instance
    (h : members.foldlM (member path) owner state = .ok (.instanceObject ref) final) :
    final = state := by
  induction members generalizing owner state with
  | nil =>
      cases h
      rfl
  | cons name rest ih =>
      rw [List.foldlM_cons] at h
      obtain ⟨next, later, hrun, hrest⟩ := exists_of_bind_ok h
      rcases member_eq_or_procedure hrun with rfl | ⟨method, rfl⟩
      · exact ih hrest
      · cases rest with
        | nil => cases hrest
        | cons => cases hrest

theorem resolve_of_instance (h : resolve path scope state = .ok (.instanceObject ref) final) :
    final = state := by
  cases hhead : state.heap.forest.get? scope (Path.segments path).1 with
  | none =>
      rw [resolve_of_unbound hhead] at h
      cases h
  | some start =>
      rw [resolve_of_bound hhead] at h
      exact foldlM_member_of_instance h

/-- A path with a member behind it leads one step further. -/
theorem resolve_append {ownerPath : String} (hname : '.' ∉ name.toList)
    (h : resolve ownerPath scope state = .ok owner final) :
    resolve (ownerPath ++ "." ++ name) scope state =
      member (ownerPath ++ "." ++ name) owner name final := by
  have hsegments := Path.segments_append ownerPath hname
  cases hhead : state.heap.forest.get? scope (Path.segments ownerPath).1 with
  | none =>
      rw [resolve_of_unbound hhead] at h
      cases h
  | some start =>
      rw [resolve_of_bound hhead] at h
      rw [resolve_of_bound (by rw [hsegments, hhead]), hsegments, List.foldlM_append,
        bind_of_ok (foldlM_member_of_path h _), List.foldlM_cons]
      exact congrFun (bind_pure _) final

end Run

end Wabun
