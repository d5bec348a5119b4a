import Wabun.Heap

/-!
Equality of values. Two instances are equal if they are one object, or if
they are of one class and have equal fields. A pair of instances that is met
again while it is being compared counts as equal there, so that the
comparison of cyclic instances comes to an end.
-/

namespace Wabun

/-- An order in which the bindings of a table are gone through, and one for the fields
of each instance. It must leave out no binding and repeat none; no result depends on
which order it is. -/
structure Listing where
  list : Table Value → List (String × Value)
  perm : ∀ table, (list table).Perm table.entries
  fields : Heap → InstanceRef → List (String × Value)
  fields_perm : ∀ heap ref, (fields heap ref).Perm (heap.instanceInfo ref).fields.entries

/-- The order of the names. -/
def Listing.byName : Listing where
  list := Table.entries
  perm _ := .refl _
  fields heap ref := (heap.instanceInfo ref).fields.entries
  fields_perm _ _ := .refl _

namespace Value

/-- Equality of values, given when two instances are equal. -/
def equalBy? (instances : InstanceRef → InstanceRef → Option Bool) : Value → Value → Option Bool
  | .number x, .number y => some (x == y)
  | .text s, .text t => some (s == t)
  | .truth b, .truth c => some (b == c)
  | .unit, .unit => some true
  | .procedure a, .procedure b => some (a == b)
  | .classObject a, .classObject b => some (a == b)
  | .enumeration a, .enumeration b => some (a == b)
  | .instanceObject a, .instanceObject b => instances a b
  | _, _ => some false

end Value

namespace Heap

/-- Whether two instances are equal while the pairs that are listed are being
compared. The bound says how many more can be listed; where one too many is
met, there is no answer. -/
def equalInstances? (heap : Heap) (listing : Listing) :
    Nat → List (InstanceRef × InstanceRef) → InstanceRef → InstanceRef → Option Bool
  | 0, _, _, _ => none
  | bound + 1, outer, a, b =>
    let first := heap.instanceInfo a
    let second := heap.instanceInfo b
    if a == b then some true
    else if first.classRef != second.classRef then some false
    else if outer.contains (a, b) then some true
    else if first.fields.size != second.fields.size then some false
    else
      (listing.fields heap a).allM fun (name, value) =>
        match second.fields.get? name with
        | some other =>
          value.equalBy? (heap.equalInstances? listing bound ((a, b) :: outer)) other
        | none => some false

/-- Equality of values. No pair is listed twice on the way to another one, so
the number of pairs is bound enough. -/
def equal? (heap : Heap) (listing : Listing) (a b : Value) : Option Bool :=
  a.equalBy? (heap.equalInstances? listing (heap.instances.size * heap.instances.size + 1) []) b

def equal (heap : Heap) (listing : Listing) (a b : Value) : Bool :=
  (heap.equal? listing a b).getD false

end Heap

end Wabun
