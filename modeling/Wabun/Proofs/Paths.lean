import Mathlib.Data.List.TakeWhile
import Wabun.Path

/-!
The two ways to take a path apart. Where a value is read a path is cut at every dot, and
where a field is written it is cut at the last one. A path with one more member behind it
has that member as the last one in both ways.
-/

namespace Wabun

namespace Text

theorem cutAt_of_notMem {separator : Char} {text : List Char} (h : separator ∉ text) :
    cutAt separator text = (text, []) := by
  induction text with
  | nil => rfl
  | cons c rest ih =>
      have hc : c ≠ separator := fun heq => h (heq ▸ List.mem_cons_self)
      have hrest : separator ∉ rest := fun hmem => h (List.mem_cons_of_mem c hmem)
      simp [cutAt, ih hrest, hc]

theorem notMem_cutAt (separator : Char) (text : List Char) :
    separator ∉ (cutAt separator text).1 := by
  induction text with
  | nil => simp [cutAt]
  | cons c rest ih =>
      by_cases hc : c = separator
      · simp [cutAt, hc]
      · simp [cutAt, hc, ih, Ne.symm hc]

theorem cutAt_append (separator : Char) (text rest : List Char) :
    cutAt separator (text ++ separator :: rest) =
      ((cutAt separator text).1,
        (cutAt separator text).2 ++ (cutAt separator rest).1 :: (cutAt separator rest).2) := by
  induction text with
  | nil => simp [cutAt]
  | cons c text ih =>
      by_cases hc : c = separator
      · simp [cutAt, hc, ih]
      · simp [cutAt, hc, ih]

end Text

namespace Path

theorem splitLast?_eq_none_iff {path : String} :
    splitLast? path = none ↔ '.' ∉ path.toList := by
  have hdrop : splitLast? path = none ↔ path.toList.reverse.dropWhile (· != '.') = [] := by
    unfold splitLast?
    dsimp only
    split
    · next hnil => simp [hnil]
    · next hcons => simp [hcons]
  rw [hdrop, List.dropWhile_eq_nil_iff]
  constructor
  · intro h hdot
    simpa using h '.' (List.mem_reverse.mpr hdot)
  · intro h c hc
    have hne : c ≠ '.' := fun hdot => h (hdot ▸ List.mem_reverse.mp hc)
    simpa using hne

/-- The two sides of the last dot of a path give the path. -/
theorem append_of_splitLast? {path owner member : String}
    (h : splitLast? path = some (owner, member)) : owner ++ "." ++ member = path := by
  unfold splitLast? at h
  dsimp only at h
  have hsplit := List.takeWhile_append_dropWhile (p := (· != '.')) (l := path.toList.reverse)
  cases hrest : path.toList.reverse.dropWhile (· != '.') with
  | nil =>
      rw [hrest] at h
      cases h
  | cons dot rest =>
      have hdot : dot = '.' := by
        have hhead := List.head?_dropWhile_not (· != '.') path.toList.reverse
        rw [hrest] at hhead
        simpa using hhead
      rw [hrest] at h hsplit
      cases h
      have hpath := congrArg List.reverse hsplit
      rw [hdot, List.reverse_reverse] at hpath
      apply String.toList_inj.mp
      simpa using hpath

theorem toList_append_dot (owner member : String) :
    (owner ++ "." ++ member).toList = owner.toList ++ '.' :: member.toList := by
  simp

theorem splitLast?_append (owner : String) {member : String} (h : '.' ∉ member.toList) :
    splitLast? (owner ++ "." ++ member) = some (owner, member) := by
  have hplain : ∀ c ∈ member.toList.reverse, (c != '.') = true := by
    intro c hc
    have hne : c ≠ '.' := fun hdot => h (hdot ▸ List.mem_reverse.mp hc)
    simpa using hne
  have hreverse : (owner ++ "." ++ member).toList.reverse =
      member.toList.reverse ++ '.' :: owner.toList.reverse := by
    simp
  unfold splitLast?
  dsimp only
  rw [hreverse, List.dropWhile_append_of_pos hplain, List.takeWhile_append_of_pos hplain]
  simp

theorem segments_of_notMem {name : String} (h : '.' ∉ name.toList) : segments name = (name, []) := by
  unfold segments
  rw [Text.cutAt_of_notMem h]
  simp

/-- What a path begins with is a name without a dot. -/
theorem notMem_segments (path : String) : '.' ∉ (segments path).1.toList := by
  unfold segments
  simpa using Text.notMem_cutAt '.' path.toList

theorem segments_append (owner : String) {member : String} (h : '.' ∉ member.toList) :
    segments (owner ++ "." ++ member) = ((segments owner).1, (segments owner).2 ++ [member]) := by
  unfold segments
  rw [toList_append_dot, Text.cutAt_append, Text.cutAt_of_notMem h]
  simp

end Path

end Wabun
