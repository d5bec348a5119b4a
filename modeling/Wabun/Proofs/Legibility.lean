import Mathlib
import Wabun.Json
import Wabun.Proofs.Numerals

/-!
The text of a JSON value stands for that value only. Each text ends where a reader can see it:
at a closing quote or bracket, or before a comma or a line break. So two values with one text
are one value, if all their numbers are finite.
-/

namespace Wabun.Json

/-- All numbers of a value are finite. -/
inductive IsFinite : Json → Prop where
  | null : IsFinite null
  | bool (value : Bool) : IsFinite (bool value)
  | number {value : Float} (h : value.isFinite = true) : IsFinite (number value)
  | string (value : String) : IsFinite (string value)
  | array {items : List Json} (h : ∀ item ∈ items, IsFinite item) : IsFinite (array items)
  | object {members : List (String × Json)} (h : ∀ member ∈ members, IsFinite member.2) :
      IsFinite (object members)

section Strings

def hexValue (c : Char) : ℕ := if c.isDigit then c.toNat - 48 else c.toNat - 87

/-- The character behind a backslash, and the text after it. -/
def readEscape : List Char → Option (Char × List Char)
  | 'n' :: rest => some ('\n', rest)
  | 't' :: rest => some ('\t', rest)
  | 'r' :: rest => some ('\r', rest)
  | 'b' :: rest => some ('\x08', rest)
  | 'f' :: rest => some ('\x0c', rest)
  | 'u' :: _ :: _ :: high :: low :: rest => some (.ofNat (16 * hexValue high + hexValue low), rest)
  | c :: rest => some (c, rest)
  | [] => none

/-- The next character of a string and the text after it; none at the closing quote. -/
def readChar : List Char → Option (Char × List Char)
  | '\\' :: rest => readEscape rest
  | c :: rest => if c = '"' then none else some (c, rest)
  | [] => none

theorem hexValue_digitChar {n : ℕ} (h : n < 16) : hexValue n.digitChar = n := by
  interval_cases n <;> rfl

theorem readChar_escapedChar (c : Char) (rest : List Char) :
    readChar (escapedChar c ++ rest) = some (c, rest) := by
  unfold escapedChar
  split
  case h_8 hquote hbackslash _ _ _ _ _ =>
    split
    · next hcontrol =>
        have hdigits : 16 * hexValue (c.toNat / 16).digitChar + hexValue (c.toNat % 16).digitChar =
            c.toNat := by
          rw [hexValue_digitChar (by omega), hexValue_digitChar (by omega)]
          omega
        change some (Char.ofNat (16 * hexValue (c.toNat / 16).digitChar +
          hexValue (c.toNat % 16).digitChar), rest) = some (c, rest)
        rw [hdigits, Char.ofNat_toNat]
    · rw [List.singleton_append, readChar, if_neg hquote]
      exact hbackslash
  all_goals rfl

/-- A string ends at its closing quote, and is known by what stands before it. -/
theorem escaped_injective {text text' rest rest' : List Char}
    (h : text.flatMap escapedChar ++ '"' :: rest = text'.flatMap escapedChar ++ '"' :: rest') :
    text = text' ∧ rest = rest' := by
  have hquote (rest : List Char) : readChar ('"' :: rest) = none := rfl
  induction text generalizing text' with
  | nil =>
      cases text' with
      | nil => simpa using h
      | cons c' text' =>
          have hread := congrArg readChar h
          rw [List.flatMap_cons, List.append_assoc, readChar_escapedChar] at hread
          cases hread
  | cons c text ih =>
      cases text' with
      | nil =>
          have hread := congrArg readChar h
          rw [List.flatMap_cons, List.append_assoc, readChar_escapedChar] at hread
          cases hread
      | cons c' text' =>
          have hread := congrArg readChar h
          rw [List.flatMap_cons, List.flatMap_cons, List.append_assoc, List.append_assoc,
            readChar_escapedChar, readChar_escapedChar] at hread
          obtain ⟨rfl, htext⟩ := Prod.mk.inj (Option.some.inj hread)
          obtain ⟨rfl, hrest⟩ := ih htext
          exact ⟨rfl, hrest⟩

theorem stringText_injective {text text' : String} {rest rest' : List Char}
    (h : (stringText text).toList ++ rest = (stringText text').toList ++ rest') :
    text = text' ∧ rest = rest' := by
  simp only [stringText, String.toList_ofList, List.cons_append, List.append_assoc,
    List.nil_append, List.cons.injEq, true_and] at h
  obtain ⟨htext, hrest⟩ := escaped_injective h
  exact ⟨String.toList_inj.mp htext, hrest⟩

end Strings

section Sequences

/-- A text that ends a value: nothing, a comma or a line break. -/
def Stops (rest : List Char) : Prop := ∀ c ∈ rest.head?, c = ',' ∨ c = '\n'

variable {α : Type} {P : α → Prop} {text : α → List Char} {rest rest' : List Char}

/-- A value that no other has the text of, whatever comes after the two. -/
def Separable (P : α → Prop) (text : α → List Char) (a : α) : Prop :=
  ∀ b rest rest', P b → Stops rest → Stops rest' → text a ++ rest = text b ++ rest' →
    a = b ∧ rest = rest'

/-- The items of a sequence behind the first, and its end. -/
def further (depth : ℕ) (closing : String) : List (List Char) → List Char
  | [] => (newline depth).toList ++ closing.toList
  | item :: items => ',' :: (newline (depth + 1)).toList ++ item ++ further depth closing items

variable {depth : ℕ} {opening closing : String}

theorem stops_further (items : List (List Char)) :
    Stops (further depth closing items ++ rest) := by
  intro c hc
  cases items with
  | nil =>
      right
      simpa [further, newline, eq_comm] using hc
  | cons item items =>
      left
      simpa [further, eq_comm] using hc

theorem further_injective {items items' : List α} (h : ∀ a ∈ items, Separable P text a)
    (h' : ∀ b ∈ items', P b)
    (heq : further depth closing (items.map text) ++ rest =
      further depth closing (items'.map text) ++ rest') :
    items = items' ∧ rest = rest' := by
  induction items generalizing items' with
  | nil =>
      cases items' with
      | nil => exact ⟨rfl, List.append_cancel_left heq⟩
      | cons b items' => simp [further, newline] at heq
  | cons a items ih =>
      cases items' with
      | nil => simp [further, newline] at heq
      | cons b items' =>
          have hitems : text a ++ (further depth closing (items.map text) ++ rest) =
              text b ++ (further depth closing (items'.map text) ++ rest') := by
            simpa [further] using heq
          obtain ⟨rfl, hfurther⟩ := h a List.mem_cons_self b _ _ (h' b List.mem_cons_self)
            (stops_further _) (stops_further _) hitems
          obtain ⟨rfl, hrest⟩ := ih (fun a ha => h a (List.mem_cons_of_mem _ ha))
            (fun b hb => h' b (List.mem_cons_of_mem _ hb)) hfurther
          exact ⟨rfl, hrest⟩

theorem toList_enclose_cons (item : String) (items : List String) :
    (enclose opening closing depth (item :: items)).toList =
      opening.toList ++ (newline (depth + 1)).toList ++ item.toList ++
        further depth closing (items.map String.toList) := by
  have hintercalate : (("," ++ newline (depth + 1)).intercalate (item :: items)).toList ++
      ((newline depth).toList ++ closing.toList) =
        item.toList ++ further depth closing (items.map String.toList) := by
    induction items generalizing item with
    | nil => simp [further]
    | cons next items ih =>
        simp only [String.intercalate_cons_cons, String.toList_append, List.append_assoc, ih,
          List.map_cons, further]
        rfl
  unfold enclose
  simp only [List.isEmpty_cons, Bool.false_eq_true, if_false, String.toList_append,
    List.append_assoc, hintercalate]

theorem toList_newline (depth : ℕ) :
    (newline depth).toList = '\n' :: List.replicate (2 * depth) ' ' := by
  simp [newline]

/-- Arrays and objects are known by their items, if these can be told apart. -/
theorem enclose_injective {c : Char} {items items' : List α} {text : α → String}
    (hclosing : closing.toList = [c]) (hbreak : c ≠ '\n')
    (h : ∀ a ∈ items, Separable P (String.toList ∘ text) a) (h' : ∀ b ∈ items', P b)
    (heq : (enclose opening closing depth (items.map text)).toList ++ rest =
      (enclose opening closing depth (items'.map text)).toList ++ rest') :
    items = items' ∧ rest = rest' := by
  have hempty : (enclose opening closing depth []).toList = opening.toList ++ [c] := by
    rw [← hclosing]
    exact String.toList_append
  cases items with
  | nil =>
      cases items' with
      | nil => exact ⟨rfl, List.append_cancel_left heq⟩
      | cons b items' =>
          rw [List.map_nil, List.map_cons, hempty, toList_enclose_cons] at heq
          simp [toList_newline, hbreak] at heq
  | cons a items =>
      cases items' with
      | nil =>
          rw [List.map_nil, List.map_cons, hempty, toList_enclose_cons] at heq
          simp [toList_newline, hbreak.symm] at heq
      | cons b items' =>
          rw [List.map_cons, List.map_cons, toList_enclose_cons, toList_enclose_cons,
            List.map_map, List.map_map] at heq
          have hitems : (text a).toList ++
                (further depth closing (items.map (String.toList ∘ text)) ++ rest) =
              (text b).toList ++
                (further depth closing (items'.map (String.toList ∘ text)) ++ rest') := by
            simpa using heq
          obtain ⟨rfl, hfurther⟩ := h a List.mem_cons_self b _ _ (h' b List.mem_cons_self)
            (stops_further _) (stops_further _) hitems
          obtain ⟨rfl, hrest⟩ := further_injective
            (fun a ha => h a (List.mem_cons_of_mem _ ha))
            (fun b hb => h' b (List.mem_cons_of_mem _ hb)) hfurther
          exact ⟨rfl, hrest⟩

end Sequences

section Values

variable {depth : ℕ} {opening closing : String} {rest rest' : List Char}

/-- The characters of numbers. -/
def isNumeric (c : Char) : Bool := c.isDigit || ['.', 'e', '+', '-'].contains c

/-- What the first character of a value tells of it. -/
def lead : Json → Char
  | null => 'n'
  | bool value => if value then 't' else 'f'
  | number _ => '0'
  | string _ => '"'
  | array _ => '['
  | object _ => '\x7b'

def leadOf (c : Char) : Char := if c.isDigit || c == '-' then '0' else c

theorem numberText_eq {x : Float} (h : x.isFinite = true) :
    numberText x = layout.render x := by
  rw [numberText, if_pos h]

theorem isNumeric_numberText {x : Float} (h : x.isFinite = true) :
    ∀ c ∈ (numberText x).toList, isNumeric c = true := by
  obtain ⟨text, d, htext, hwritten, _⟩ := layout.written_render h
  intro c hc
  rw [numberText_eq h, htext] at hc
  rcases List.mem_append.mp hc with hsign | hdigit
  · unfold Decimal.signText at hsign
    split at hsign
    · rw [List.mem_singleton.mp hsign]
      rfl
    · exact absurd hsign List.not_mem_nil
  · rw [isNumeric, Bool.or_eq_true, List.contains_iff_mem]
    exact hwritten.among c hdigit

theorem lead_numberText {x : Float} (h : x.isFinite = true) :
    (numberText x).toList.head?.map leadOf = some '0' := by
  obtain ⟨text, d, htext, hwritten, _⟩ := layout.written_render h
  obtain ⟨c, rest, rfl, hdigit⟩ := hwritten.begins
  rw [numberText_eq h, htext]
  unfold Decimal.signText
  split
  · rfl
  · simp [leadOf, hdigit]

theorem lead_enclose {c : Char} (hopening : opening.toList = [c]) (items : List String) :
    (enclose opening closing depth items).toList.head? = some c := by
  unfold enclose
  split <;> simp [hopening]

theorem lead_prettyAt {value : Json} (h : value.IsFinite) (depth : ℕ) :
    (prettyAt depth value).toList.head?.map leadOf = some value.lead := by
  cases h with
  | null =>
      rw [prettyAt]
      rfl
  | bool value =>
      rw [prettyAt]
      cases value <;> rfl
  | number h =>
      rw [prettyAt]
      exact lead_numberText h
  | string value =>
      rw [prettyAt, stringText, String.toList_ofList]
      rfl
  | array h =>
      rw [prettyAt, lead_enclose rfl]
      rfl
  | object h =>
      rw [prettyAt, lead_enclose rfl]
      rfl

theorem lead_eq {v w : Json} (hv : v.IsFinite) (hw : w.IsFinite)
    (h : (prettyAt depth v).toList ++ rest = (prettyAt depth w).toList ++ rest') :
    v.lead = w.lead := by
  have hlead {value : Json} (hvalue : value.IsFinite) (rest : List Char) :
      ((prettyAt depth value).toList ++ rest).head?.map leadOf = some value.lead := by
    have hfirst := lead_prettyAt hvalue depth
    cases htext : (prettyAt depth value).toList with
    | nil => simp [htext] at hfirst
    | cons c text => simpa [htext] using hfirst
  have hsame := hlead hv rest
  rw [h, hlead hw rest'] at hsame
  exact (Option.some.inj hsame).symm

theorem prettyItems_eq (depth : ℕ) (items : List Json) :
    prettyItems depth items = items.map (prettyAt depth) := by
  induction items with
  | nil => rfl
  | cons item items ih => rw [prettyItems, ih, List.map_cons]

def memberText (depth : ℕ) (member : String × Json) : String :=
  stringText member.1 ++ ": " ++ prettyAt depth member.2

theorem prettyMembers_eq (depth : ℕ) (members : List (String × Json)) :
    prettyMembers depth members = members.map (memberText depth) := by
  induction members with
  | nil => rfl
  | cons member members ih => rw [prettyMembers, ih, List.map_cons, memberText]

theorem separable_number {x : Float} (hx : x.isFinite = true) :
    Separable (fun y : Float => y.isFinite = true) (String.toList ∘ numberText) x := by
  intro y rest rest' hy hrest hrest' h
  -- The text of a number is all there is up to the first character that no number has.
  have hspan {z : Float} (hz : z.isFinite = true) {rest : List Char} (hrest : Stops rest) :
      ((numberText z).toList ++ rest).takeWhile isNumeric = (numberText z).toList := by
    have hnone : rest.takeWhile isNumeric = [] := by
      cases rest with
      | nil => rfl
      | cons c rest =>
          obtain rfl | rfl := hrest c rfl <;> rfl
    rw [List.takeWhile_append_of_pos (isNumeric_numberText hz), hnone, List.append_nil]
  have htext : (numberText x).toList = (numberText y).toList := by
    rw [← hspan hx hrest, ← hspan hy hrest']
    exact congrArg (List.takeWhile isNumeric) h
  rw [Function.comp_apply, Function.comp_apply, htext] at h
  rw [numberText_eq hx, numberText_eq hy, String.toList_inj] at htext
  exact ⟨Decimal.Layout.render_injective hx hy htext, List.append_cancel_left h⟩

theorem separable_member {depth : ℕ} {member : String × Json}
    (h : Separable IsFinite (String.toList ∘ prettyAt depth) member.2) :
    Separable (fun member => IsFinite member.2) (String.toList ∘ memberText depth) member := by
  intro other rest rest' hother hrest hrest' heq
  simp only [Function.comp_apply, memberText, String.toList_append, List.append_assoc] at heq
  obtain ⟨hname, hvalue⟩ := stringText_injective heq
  obtain ⟨hvalue, hrest⟩ :=
    h other.2 rest rest' hother hrest hrest' (List.append_cancel_left hvalue)
  exact ⟨Prod.ext hname hvalue, hrest⟩

/-- Two values of one form: the texts of others begin in different ways. -/
inductive Alike : Json → Json → Prop where
  | null : Alike null null
  | bool (value : Bool) : Alike (bool value) (bool value)
  | number (x y : Float) : Alike (number x) (number y)
  | string (text text' : String) : Alike (string text) (string text')
  | array (items items' : List Json) : Alike (array items) (array items')
  | object (members members' : List (String × Json)) : Alike (object members) (object members')

theorem alike_of_lead_eq {v w : Json} (h : v.lead = w.lead) : Alike v w := by
  cases v with
  | null =>
      cases w with
      | null => exact .null
      | bool value => cases value <;> cases h
      | _ => cases h
  | bool value =>
      cases w with
      | bool value' =>
          obtain rfl : value = value' := by
            cases value <;> cases value' <;> simp [lead] at h ⊢
          exact .bool value
      | _ => cases value <;> cases h
  | number x =>
      cases w with
      | number y => exact .number x y
      | bool value => cases value <;> cases h
      | _ => cases h
  | string text =>
      cases w with
      | string text' => exact .string text text'
      | bool value => cases value <;> cases h
      | _ => cases h
  | array items =>
      cases w with
      | array items' => exact .array items items'
      | bool value => cases value <;> cases h
      | _ => cases h
  | object members =>
      cases w with
      | object members' => exact .object members members'
      | bool value => cases value <;> cases h
      | _ => cases h

/-- A value ends where its text does, and no other value has the text. -/
theorem IsFinite.separable {v : Json} (h : v.IsFinite) (depth : ℕ) :
    Separable IsFinite (String.toList ∘ prettyAt depth) v := by
  have halike {v w : Json} (hv : v.IsFinite) (hw : w.IsFinite) {depth : ℕ} {rest rest' : List Char}
      (h : (prettyAt depth v).toList ++ rest = (prettyAt depth w).toList ++ rest') : Alike v w :=
    alike_of_lead_eq (lead_eq hv hw h)
  induction h generalizing depth with
  | null =>
      intro w rest rest' hw _ _ heq
      cases halike .null hw heq
      exact ⟨rfl, List.append_cancel_left heq⟩
  | bool value =>
      intro w rest rest' hw _ _ heq
      cases halike (.bool value) hw heq
      exact ⟨rfl, List.append_cancel_left heq⟩
  | number hx =>
      intro w rest rest' hw hrest hrest' heq
      cases halike (.number hx) hw heq
      cases hw with | number hy =>
      simp only [Function.comp_apply, prettyAt] at heq
      obtain ⟨rfl, hrest⟩ := separable_number hx _ _ _ hy hrest hrest' heq
      exact ⟨rfl, hrest⟩
  | string value =>
      intro w rest rest' hw _ _ heq
      cases halike (.string value) hw heq
      simp only [Function.comp_apply, prettyAt] at heq
      obtain ⟨rfl, hrest⟩ := stringText_injective heq
      exact ⟨rfl, hrest⟩
  | array h ih =>
      intro w rest rest' hw _ _ heq
      cases halike (.array h) hw heq
      cases hw with | array h' =>
      simp only [Function.comp_apply, prettyAt, prettyItems_eq] at heq
      obtain ⟨rfl, hrest⟩ := enclose_injective rfl (by decide)
        (fun item hitem => ih item hitem (depth + 1)) h' heq
      exact ⟨rfl, hrest⟩
  | object h ih =>
      intro w rest rest' hw _ _ heq
      cases halike (.object h) hw heq
      cases hw with | object h' =>
      simp only [Function.comp_apply, prettyAt, prettyMembers_eq] at heq
      obtain ⟨rfl, hrest⟩ := enclose_injective rfl (by decide)
        (fun member hmember => separable_member (ih member hmember (depth + 1))) h' heq
      exact ⟨rfl, hrest⟩

/-- Two values with one text are one value. -/
theorem pretty_injective {v w : Json} (hv : v.IsFinite) (hw : w.IsFinite)
    (h : v.pretty = w.pretty) : v = w := by
  have hstops : Stops [] := by
    intro c hc
    cases hc
  exact (hv.separable 0 w [] [] hw hstops hstops (congrArg (String.toList · ++ []) h)).1

end Values

end Wabun.Json
