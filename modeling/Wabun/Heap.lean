import Wabun.Scope

/-!
The objects of a run: scopes, procedures, classes, instances and enumerations.
Objects are made and changed but never dropped, so a reference stays good.
-/

namespace Wabun

/-- A function together with the scope it was declared in. -/
structure Procedure where
  name : String
  params : List String
  body : List Node
  closure : ScopeRef

structure ClassInfo where
  name : String
  parent : Option ClassRef
  /-- the statements that are run for every new instance -/
  members : List Node
  methods : Table ProcedureRef
  statics : Table ProcedureRef
  /-- the scope that the class was declared in -/
  scope : ScopeRef

structure Instance where
  classRef : ClassRef
  fields : Table Value

structure EnumInfo where
  name : String
  /-- the place of each variant in the declaration -/
  ordinals : Table Nat

def EnumInfo.ofVariants (name : String) (variants : List String) : EnumInfo :=
  ⟨name, .ofList variants.zipIdx⟩

structure Heap where
  forest : Forest
  procedures : Array Procedure
  classes : Array ClassInfo
  instances : Array Instance
  enums : Array EnumInfo

namespace Heap

def empty : Heap := ⟨.empty, #[], #[], #[], #[]⟩

def procedure (heap : Heap) (ref : ProcedureRef) : Procedure :=
  heap.procedures.getD ref.index ⟨"", [], [], ⟨0⟩⟩

def classInfo (heap : Heap) (ref : ClassRef) : ClassInfo :=
  heap.classes.getD ref.index ⟨"", none, [], ∅, ∅, ⟨0⟩⟩

def instanceInfo (heap : Heap) (ref : InstanceRef) : Instance :=
  heap.instances.getD ref.index ⟨⟨0⟩, ∅⟩

def enumInfo (heap : Heap) (ref : EnumRef) : EnumInfo :=
  heap.enums.getD ref.index ⟨"", ∅⟩

def addScope (heap : Heap) (scope : Scope) : ScopeRef × Heap :=
  let (ref, forest) := heap.forest.add scope
  (ref, { heap with forest })

def addProcedure (heap : Heap) (procedure : Procedure) : ProcedureRef × Heap :=
  (⟨heap.procedures.size⟩, { heap with procedures := heap.procedures.push procedure })

def addClass (heap : Heap) (info : ClassInfo) : ClassRef × Heap :=
  (⟨heap.classes.size⟩, { heap with classes := heap.classes.push info })

def addInstance (heap : Heap) (info : Instance) : InstanceRef × Heap :=
  (⟨heap.instances.size⟩, { heap with instances := heap.instances.push info })

def addEnum (heap : Heap) (info : EnumInfo) : EnumRef × Heap :=
  (⟨heap.enums.size⟩, { heap with enums := heap.enums.push info })

def setField (heap : Heap) (ref : InstanceRef) (name : String) (value : Value) : Heap :=
  { heap with
    instances := heap.instances.modify ref.index fun info =>
      { info with fields := info.fields.insert name value } }

def setStatic (heap : Heap) (ref : ClassRef) (name : String) (method : ProcedureRef) : Heap :=
  { heap with
    classes := heap.classes.modify ref.index fun info =>
      { info with statics := info.statics.insert name method } }

/-- A class and its parents, the class itself first. A parent is older than
its children, which bounds the walk. -/
def ancestry (heap : Heap) (ref : ClassRef) : List ClassRef :=
  ref ::
    match (heap.classInfo ref).parent with
    | some parent => if parent.index < ref.index then heap.ancestry parent else []
    | none => []
termination_by ref.index

/-- The classes from the root ancestor to the class itself. -/
def lineage (heap : Heap) (ref : ClassRef) : List ClassRef :=
  (heap.ancestry ref).reverse

def findMethod? (heap : Heap) (ref : ClassRef) (name : String) : Option ProcedureRef :=
  (heap.ancestry ref).findSome? fun ref => (heap.classInfo ref).methods.get? name

def findStatic? (heap : Heap) (ref : ClassRef) (name : String) : Option ProcedureRef :=
  (heap.ancestry ref).findSome? fun ref => (heap.classInfo ref).statics.get? name

/-- Whether a class or one of its parents has a name. -/
def isOrExtends (heap : Heap) (ref : ClassRef) (name : String) : Bool :=
  (heap.ancestry ref).any fun ref => (heap.classInfo ref).name == name

/-- Whether a type name describes a value. An instance is also described by
the name of its class and of every parent of it. -/
def matchesType (heap : Heap) (value : Value) (name : String) : Bool :=
  canonicalType name == value.typeName ||
    match value with
    | .instanceObject ref => heap.isOrExtends (heap.instanceInfo ref).classRef name
    | _ => false

end Heap

/-- The class and the field names of an instance, as text. -/
def Heap.inspectInstance (heap : Heap) (ref : InstanceRef) : String :=
  let info := heap.instanceInfo ref
  "Instance \x7b class: " ++ Text.quoted (heap.classInfo info.classRef).name ++
    ", fields: [" ++ ", ".intercalate (info.fields.names.map Text.quoted) ++ "] \x7d"

end Wabun
