import Wabun.Heap
import Wabun.Word

/-!
The text of values. An instance shows its fields in the order of their names;
where an instance is met again inside its own text, a mark stands for it.
-/

namespace Wabun

/-- Numbers are written without an exponent, and both zeros alike. -/
def Value.numberText (x : Float) : String :=
  if x == 0 then "0" else Decimal.Layout.plainest.render x

namespace Heap

/-- The text of a value, given the text of instances. -/
def displayWith? (heap : Heap) (instanceText : InstanceRef → Option String) :
    Value → Option String
  | .number x => some (Value.numberText x)
  | .text s => some s
  | .truth b => some (Word.ofTruth b)
  | .procedure ref => some ("<関数 " ++ (heap.procedure ref).name ++ ">")
  | .classObject ref => some ("<構造 " ++ (heap.classInfo ref).name ++ ">")
  | .enumeration ref => some ("<列挙 " ++ (heap.enumInfo ref).name ++ ">")
  | .instanceObject ref => instanceText ref
  | .unit => some "<無>"

def cycleMark : String := "<循環>"

/-- The text of an instance inside the text of others, which are listed. The
bound says how many more can be listed; where one too many is met, there is no
text. -/
def displayInstance? (heap : Heap) : Nat → List InstanceRef → InstanceRef → Option String
  | 0, _, _ => none
  | bound + 1, outer, ref =>
    if outer.contains ref then
      some cycleMark
    else do
      let info := heap.instanceInfo ref
      let fields ← info.fields.entries.mapM fun (name, value) => do
        let text ← heap.displayWith? (heap.displayInstance? bound (ref :: outer)) value
        return " " ++ name ++ ": " ++ text
      return (heap.classInfo info.classRef).name ++ " \x7b" ++ ",".intercalate fields ++
        (if fields.isEmpty then "\x7d" else " \x7d")

/-- The text of a value. No instance is listed twice on the way to another
one, so their number is bound enough. -/
def display? (heap : Heap) (value : Value) : Option String :=
  heap.displayWith? (heap.displayInstance? (heap.instances.size + 1) []) value

def display (heap : Heap) (value : Value) : String :=
  (heap.display? value).getD cycleMark

end Heap

end Wabun
