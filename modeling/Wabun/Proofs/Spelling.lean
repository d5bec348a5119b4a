import Wabun.Token.Lexer

/-!
Written tokens are read back. A token can be written in more than one way: brackets
and commas in two widths, texts between two kinds of quotes, numbers with any digits.
Between two tokens stands a gap, which is white space or comments in any mixture. The
gap keeps apart what would otherwise run together, because a gap begins with a
character that continues no token. So each spelling is read up to its end and no
further, and the tokens of the whole text are those that were written.
-/

namespace Wabun

namespace Text

/-- The code points of a table, one by one. -/
def codes (ranges : List CodeRange) : List Nat :=
  ranges.flatMap fun range => List.range' range.first (range.last + 1 - range.first)

theorem mem_codes_of_inRanges {ranges : List CodeRange} {code : Nat}
    (h : inRanges ranges code = true) : code ∈ codes ranges := by
  induction ranges with
  | nil => cases h
  | cons range rest ih =>
      rw [inRanges] at h
      split at h
      · cases h
      · next hfirst =>
          rw [codes, List.flatMap_cons, List.mem_append]
          rcases Bool.or_eq_true _ _ ▸ h with hlast | hrest
          · have hle := of_decide_eq_true hlast
            exact .inl (List.mem_range'_1.mpr (by omega))
          · exact .inr (ih hrest)

end Text

namespace Token

/-- White space and comments. Every comment has the end of its line. -/
inductive Gap : List Char → Prop
  | nil : Gap []
  | space {c rest} : Text.isSpace c = true → Gap rest → Gap (c :: rest)
  | comment {body rest} : '\n' ∉ body → Gap rest → Gap ('※' :: body ++ '\n' :: rest)

/-- A text as it is written between quotes: a backslash stands before the closing
quote and before a backslash. -/
def escape (close : Char) : List Char → List Char
  | [] => []
  | c :: rest =>
    if c = close ∨ c = '\\' then '\\' :: c :: escape close rest else c :: escape close rest

/-- Runs of word characters with single dots between them. -/
structure IsPath (runs : List (List Char)) : Prop where
  ne_nil : runs ≠ []
  run_ne_nil : ∀ run ∈ runs, run ≠ []
  isWordChar : ∀ run ∈ runs, ∀ c ∈ run, isWordChar c = true

/-- The written forms of a token. -/
inductive Spells : Kind → List Char → Prop
  | symbol (sign : Symbol) : Spells (.symbol sign) sign.text.toList
  | wideLeftParen : Spells (.symbol .leftParen) ['（']
  | wideRightParen : Spells (.symbol .rightParen) ['）']
  | wideComma : Spells (.symbol .comma) ['、']
  | truth (value : Bool) {word : String} : word ∈ Word.truthWords value →
    Spells (.truth value) word.toList
  | text (value : String) : Spells (.text value) ('"' :: escape '"' value.toList ++ ['"'])
  | wideText (value : String) : Spells (.text value) ('「' :: escape '」' value.toList ++ ['」'])
  | whole {digits : List Char} : digits ≠ [] → (∀ d ∈ digits, d.isDigit = true) →
    Spells (.number (Float.ofScientific (Nat.ofDigitChars 10 digits 0) true 0)) digits
  | fraction {whole fraction : List Char} : whole ≠ [] → fraction ≠ [] →
    (∀ d ∈ whole, d.isDigit = true) → (∀ d ∈ fraction, d.isDigit = true) →
    Spells (.number (Float.ofScientific (Nat.ofDigitChars 10 (whole ++ fraction) 0) true
      fraction.length)) (whole ++ '.' :: fraction)
  | word {runs : List (List Char)} : IsPath runs →
    (∀ c ∈ (List.intercalate ['.'] runs).head?, c.isDigit = false) →
    (∀ value, String.ofList (List.intercalate ['.'] runs) ∉ Word.truthWords value) →
    Spells (.word (String.ofList (List.intercalate ['.'] runs))) (List.intercalate ['.'] runs)

/-- The tokens are written one after another, with a gap behind each, which is not
empty where another token follows. -/
inductive Written : List Kind → List Char → Prop
  | nil : Written [] []
  | cons {kind kinds spelling gap rest} : Spells kind spelling → Gap gap →
    (kinds ≠ [] → gap ≠ []) → Written kinds rest →
    Written (kind :: kinds) (spelling ++ gap ++ rest)

/-- A character with which a gap begins. -/
def startsGap (c : Char) : Bool :=
  Text.isSpace c || c == '※'

/-- The text is at its end, or a gap begins. -/
def AtGap (rest : List Char) : Prop :=
  ∀ c ∈ rest.head?, startsGap c = true

section Characters

variable {c : Char}

theorem isWordChar_of_isSpace (h : Text.isSpace c = true) : isWordChar c = false := by
  have hcodes : ∀ code ∈ Text.codes Text.spaceRanges,
      Text.inRanges Text.alphabeticRanges code = false ∧
        Text.inRanges Text.numericRanges code = false := by
    decide +kernel
  obtain ⟨halphabetic, hnumeric⟩ := hcodes c.toNat (Text.mem_codes_of_inRanges h)
  have hunderscore : c ≠ '_' := by
    rintro rfl
    exact absurd h (by decide)
  rw [isWordChar, Text.isAlphabetic, halphabetic, Text.isNumeric, hnumeric]
  simpa using hunderscore

theorem isWordChar_of_startsGap (h : startsGap c = true) : isWordChar c = false := by
  rcases Bool.or_eq_true _ _ ▸ h with hspace | hmark
  · exact isWordChar_of_isSpace hspace
  · rw [beq_iff_eq.mp hmark]
    decide +kernel

theorem isWordChar_of_isDigit (h : c.isDigit = true) : isWordChar c = true := by
  have hnumeric : Text.isNumeric c = true := by
    simp only [Char.isDigit, Bool.and_eq_true, decide_eq_true_eq, ge_iff_le,
      UInt32.le_iff_toNat_le] at h
    have hlow : 48 ≤ c.toNat := h.1
    have hhigh : c.toNat ≤ 57 := h.2
    rw [Text.isNumeric, Text.numericRanges, Text.inRanges, if_neg (Nat.not_lt.mpr hlow),
      decide_eq_true hhigh, Bool.true_or]
  rw [isWordChar, hnumeric, Bool.or_true, Bool.true_or]

theorem isDigit_of_startsGap (h : startsGap c = true) : c.isDigit = false := by
  have hword := isWordChar_of_startsGap h
  cases hdigit : c.isDigit with
  | false => rfl
  | true =>
      rw [isWordChar_of_isDigit hdigit] at hword
      cases hword

theorem ne_of_startsGap (h : startsGap c = true) {other : Char} (hother : startsGap other = false) :
    c ≠ other := by
  rintro rfl
  rw [h] at hother
  cases hother

theorem startsGap_of_isWordChar (h : isWordChar c = true) : startsGap c = false := by
  cases hgap : startsGap c with
  | false => rfl
  | true =>
      rw [isWordChar_of_startsGap hgap] at h
      cases h

/-- A word character begins no symbol and no quoted text. -/
theorem signs_of_isWordChar (h : isWordChar c = true) :
    symbolOfChar? c = none ∧ comparisonOfChar? c = none ∧ closingQuote? c = none := by
  refine ⟨?_, ?_, ?_⟩
  · unfold symbolOfChar?
    split
    case h_13 => rfl
    all_goals exact absurd h (by decide +kernel)
  · unfold comparisonOfChar?
    split
    case h_5 => rfl
    all_goals exact absurd h (by decide +kernel)
  · unfold closingQuote?
    split
    case h_3 => rfl
    all_goals exact absurd h (by decide +kernel)

end Characters

section Gaps

variable {gap rest body : List Char}

theorem Gap.head (h : Gap gap) (hne : gap ≠ []) (rest : List Char) : AtGap (gap ++ rest) := by
  intro c hc
  cases h with
  | nil => exact absurd rfl hne
  | space hspace _ =>
      cases hc
      rw [startsGap, hspace, Bool.true_or]
  | comment _ _ =>
      cases hc
      decide

/-- A comment goes on to the end of its line. -/
theorem splitGap_comment (h : '\n' ∉ body) (rest : List Char) :
    splitGap true (body ++ '\n' :: rest) =
      (body ++ '\n' :: (splitGap false rest).1, (splitGap false rest).2) := by
  induction body with
  | nil => rfl
  | cons c body ih =>
      have hbody : '\n' ∉ body := fun hmem => h (List.mem_cons_of_mem c hmem)
      have hinside : (c != '\n') = true := by
        rw [bne_iff_ne]
        rintro rfl
        exact h List.mem_cons_self
      rw [List.cons_append, splitGap, Bool.true_or, Bool.true_or, if_pos rfl, if_pos rfl, hinside,
        ih hbody]
      rfl

/-- A gap is split off whole if no gap begins behind it. -/
theorem Gap.splitGap (h : Gap gap) (hrest : ∀ c ∈ rest.head?, startsGap c = false) :
    splitGap false (gap ++ rest) = (gap, rest) := by
  induction h with
  | nil =>
      cases rest with
      | nil => rfl
      | cons c rest =>
          have hc := hrest c rfl
          rw [startsGap] at hc
          rw [List.nil_append, Token.splitGap, Bool.false_or, hc, if_neg Bool.false_ne_true]
  | @space c gap hspace _ ih =>
      have hmark : (c == '※') = false := by
        rw [beq_eq_false_iff_ne]
        rintro rfl
        exact absurd hspace (by decide)
      rw [List.cons_append, Token.splitGap, hspace, Bool.or_true, Bool.true_or, if_pos rfl,
        if_neg Bool.false_ne_true, hmark, ih]
  | @comment body gap hbody _ ih =>
      rw [List.append_assoc, List.cons_append, List.cons_append, Token.splitGap]
      simp only [beq_self_eq_true, Bool.or_true, if_true, Bool.false_eq_true, if_false]
      rw [splitGap_comment hbody, ih]
      rfl

end Gaps

section Quotes

variable {close : Char}

theorem splitQuoted_close (close : Char) (rest : List Char) :
    splitQuoted close (close :: rest) = some ([], rest) := by
  rw [splitQuoted.eq_def]
  exact if_pos rfl

theorem splitQuoted_escape (hclose : close ≠ '\\') (text rest : List Char) :
    splitQuoted close (escape close text ++ close :: rest) = some (escape close text, rest) := by
  induction text with
  | nil => exact splitQuoted_close close rest
  | cons c text ih =>
      by_cases hescaped : c = close ∨ c = '\\'
      · rw [escape, if_pos hescaped, List.cons_append, List.cons_append, splitQuoted,
          if_neg hclose.symm, if_pos rfl]
        dsimp only
        rw [ih]
        rfl
      · obtain ⟨hne, hplain⟩ := not_or.mp hescaped
        rw [escape, if_neg hescaped, List.cons_append, splitQuoted.eq_def]
        dsimp only
        rw [if_neg hne, if_neg hplain, ih]
        rfl

theorem unescape_cons {c : Char} (h : c ≠ '\\') (rest : List Char) :
    unescape (c :: rest) = c :: unescape rest := by
  cases rest with
  | nil => rfl
  | cons d rest => rw [unescape, if_neg h]

theorem unescape_escape (hclose : escapedChar close = close) (text : List Char) :
    unescape (escape close text) = text := by
  induction text with
  | nil => rfl
  | cons c text ih =>
      by_cases hescaped : c = close ∨ c = '\\'
      · have hc : escapedChar c = c := by
          rcases hescaped with rfl | rfl
          · exact hclose
          · rfl
        rw [escape, if_pos hescaped, unescape, if_pos rfl, hc, ih]
      · rw [escape, if_neg hescaped, unescape_cons (not_or.mp hescaped).2, ih]

theorem scanQuoted_escape (quote : Char) (hclose : close ≠ '\\')
    (hplain : escapedChar close = close) (value : String) (rest : List Char) :
    scanQuoted quote close (escape close value.toList ++ close :: rest) =
      .token (.text value) (quote :: escape close value.toList ++ [close]) rest := by
  rw [scanQuoted, splitQuoted_escape hclose]
  dsimp only
  rw [unescape_escape hplain, String.ofList_toList]

end Quotes

section Numbers

theorem takeWhile_digits {digits rest : List Char} (h : ∀ d ∈ digits, d.isDigit = true)
    (hrest : ∀ c ∈ rest.head?, c.isDigit = false) :
    (digits ++ rest).takeWhile Char.isDigit = digits ∧
      (digits ++ rest).dropWhile Char.isDigit = rest := by
  have hstop : rest.takeWhile Char.isDigit = [] ∧ rest.dropWhile Char.isDigit = rest := by
    cases rest with
    | nil => exact ⟨rfl, rfl⟩
    | cons c rest => simp [hrest c rfl]
  rw [List.takeWhile_append_of_pos h, List.dropWhile_append_of_pos h, hstop.1, hstop.2,
    List.append_nil]
  exact ⟨rfl, rfl⟩

theorem AtGap.head_isDigit {rest : List Char} (h : AtGap rest) :
    ∀ c ∈ rest.head?, c.isDigit = false :=
  fun c hc => isDigit_of_startsGap (h c hc)

theorem splitFraction_of_atGap {rest : List Char} (h : AtGap rest) :
    splitFraction rest = ([], rest) := by
  unfold splitFraction
  split
  · exact absurd rfl (ne_of_startsGap (h '.' rfl) (by decide))
  · rfl

theorem splitFraction_digits {fraction rest : List Char} (hne : fraction ≠ [])
    (h : ∀ d ∈ fraction, d.isDigit = true) (hrest : AtGap rest) :
    splitFraction ('.' :: fraction ++ rest) = (fraction, rest) := by
  obtain ⟨htake, hdrop⟩ := takeWhile_digits h hrest.head_isDigit
  cases fraction with
  | nil => exact absurd rfl hne
  | cons d fraction =>
      rw [List.cons_append] at htake hdrop
      rw [List.cons_append, List.cons_append, splitFraction, if_pos (h d List.mem_cons_self),
        htake, hdrop]

theorem ofText?_whole {digits : List Char} (hne : digits ≠ [])
    (h : ∀ d ∈ digits, d.isDigit = true) :
    Decimal.ofText? digits = some (.ofScientific (Nat.ofDigitChars 10 digits 0) true 0) := by
  have hstop : ∀ c ∈ ([] : List Char).head?, c.isDigit = false := by
    intro c hc
    cases hc
  obtain ⟨htake, hdrop⟩ := takeWhile_digits h hstop
  rw [List.append_nil] at htake hdrop
  rw [Decimal.ofText?, htake, hdrop]
  dsimp only
  rw [List.isEmpty_eq_false_iff.mpr hne, if_neg Bool.false_ne_true, Decimal.ofDigits,
    List.append_nil, List.length_nil]

theorem ofText?_fraction {whole fraction : List Char} (hne : fraction ≠ [])
    (hwhole : ∀ d ∈ whole, d.isDigit = true) (hfraction : ∀ d ∈ fraction, d.isDigit = true) :
    Decimal.ofText? (whole ++ '.' :: fraction) = some (Decimal.ofDigits whole fraction) := by
  have hpoint : ∀ c ∈ ('.' :: fraction).head?, c.isDigit = false := by
    intro c hc
    cases hc
    rfl
  obtain ⟨htake, hdrop⟩ := takeWhile_digits hwhole hpoint
  have hsome : (whole ++ fraction).isEmpty = false :=
    List.isEmpty_eq_false_iff.mpr (List.append_ne_nil_of_right_ne_nil whole hne)
  simp only [Decimal.ofText?, htake, hdrop, List.all_eq_true.mpr hfraction, hsome, Bool.not_false,
    Bool.and_self, if_true]

theorem scanNumber_whole {digits rest : List Char} (hne : digits ≠ [])
    (h : ∀ d ∈ digits, d.isDigit = true) (hrest : AtGap rest) :
    scanNumber (digits ++ rest) =
      .token (.number (.ofScientific (Nat.ofDigitChars 10 digits 0) true 0)) digits rest := by
  obtain ⟨htake, hdrop⟩ := takeWhile_digits h hrest.head_isDigit
  have hsplit : splitNumber (digits ++ rest) = (digits, rest) := by
    unfold splitNumber
    rw [htake, hdrop, splitFraction_of_atGap hrest]
    exact Prod.ext (List.append_nil digits) rfl
  unfold scanNumber
  rw [hsplit]
  dsimp only
  rw [ofText?_whole hne h]

theorem scanNumber_fraction {whole fraction rest : List Char} (hne : fraction ≠ [])
    (hwhole : ∀ d ∈ whole, d.isDigit = true) (hfraction : ∀ d ∈ fraction, d.isDigit = true)
    (hrest : AtGap rest) :
    scanNumber (whole ++ ('.' :: fraction ++ rest)) =
      .token (.number (Decimal.ofDigits whole fraction)) (whole ++ '.' :: fraction) rest := by
  have hpoint : ∀ c ∈ ('.' :: fraction ++ rest).head?, c.isDigit = false := by
    intro c hc
    cases hc
    rfl
  obtain ⟨htake, hdrop⟩ := takeWhile_digits hwhole hpoint
  have hsome : fraction.isEmpty = false := List.isEmpty_eq_false_iff.mpr hne
  have hsplit : splitNumber (whole ++ ('.' :: fraction ++ rest)) = (whole ++ '.' :: fraction, rest) := by
    unfold splitNumber
    rw [htake, hdrop, splitFraction_digits hne hfraction hrest]
    dsimp only
    rw [hsome, if_neg Bool.false_ne_true]
  unfold scanNumber
  rw [hsplit]
  dsimp only
  rw [ofText?_fraction hne hwhole hfraction]

theorem isDigit_of_mem_takeWhile {d : Char} {text : List Char}
    (h : d ∈ text.takeWhile Char.isDigit) : d.isDigit = true :=
  List.all_eq_true.mp List.all_takeWhile d h

theorem isDigit_of_mem_splitFraction {d : Char} {text : List Char}
    (h : d ∈ (splitFraction text).1) : d.isDigit = true := by
  unfold splitFraction at h
  split at h
  · split at h
    · exact isDigit_of_mem_takeWhile h
    · cases h
  · cases h

/-- Where a digit stands a number can be read. -/
theorem exists_scanNumber {c : Char} (hc : c.isDigit = true) (rest : List Char) :
    ∃ value, Spells (.number value) (splitNumber (c :: rest)).1 ∧
      scanNumber (c :: rest) =
        .token (.number value) (splitNumber (c :: rest)).1 (splitNumber (c :: rest)).2 := by
  have hne : (c :: rest).takeWhile Char.isDigit ≠ [] := by simp [hc]
  have hwhole : ∀ d ∈ (c :: rest).takeWhile Char.isDigit, d.isDigit = true :=
    fun d => isDigit_of_mem_takeWhile
  have hfraction : ∀ d ∈ (splitFraction ((c :: rest).dropWhile Char.isDigit)).1,
      d.isDigit = true := fun d => isDigit_of_mem_splitFraction
  unfold scanNumber splitNumber
  generalize (c :: rest).takeWhile Char.isDigit = whole at *
  generalize splitFraction ((c :: rest).dropWhile Char.isDigit) = split at *
  obtain ⟨fraction, after⟩ := split
  cases hempty : fraction.isEmpty with
  | true =>
      refine ⟨.ofScientific (Nat.ofDigitChars 10 whole 0) true 0, ?_⟩
      simp only [hempty, if_true, List.append_nil, ofText?_whole hne hwhole]
      exact ⟨.whole hne hwhole, trivial⟩
  | false =>
      have hsome := List.isEmpty_eq_false_iff.mp hempty
      refine ⟨Decimal.ofDigits whole fraction, ?_⟩
      simp only [hempty, Bool.false_eq_true, if_false, ofText?_fraction hsome hwhole hfraction]
      exact ⟨.fraction hne hsome hwhole hfraction, trivial⟩

end Numbers

section Words

variable {rest : List Char}

theorem splitWord_of_atGap (h : AtGap rest) : splitWord rest = ([], rest) := by
  cases rest with
  | nil => rfl
  | cons c rest =>
      have hgap := h c rfl
      have hdot : (c == '.') = false := beq_eq_false_iff_ne.mpr (ne_of_startsGap hgap (by decide))
      rw [splitWord, isWordChar_of_startsGap hgap, hdot]
      rfl

/-- Word characters belong to the word that follows them. -/
theorem splitWord_run {run : List Char} (h : ∀ c ∈ run, isWordChar c = true)
    (rest : List Char) :
    splitWord (run ++ rest) = (run ++ (splitWord rest).1, (splitWord rest).2) := by
  induction run with
  | nil => rfl
  | cons c run ih =>
      obtain ⟨hc, hrun⟩ := List.forall_mem_cons.mp h
      rw [List.cons_append, splitWord, hc, Bool.true_or, if_pos rfl, ih hrun]
      rfl

theorem splitWord_dot {c : Char} (h : isWordChar c = true) (rest : List Char) :
    splitWord ('.' :: c :: rest) =
      ('.' :: (splitWord (c :: rest)).1, (splitWord (c :: rest)).2) := by
  have hdot : (isWordChar '.' || ('.' == '.' && (c :: rest).head?.any isWordChar)) = true := by
    simp [h]
  rw [splitWord, hdot, if_pos rfl]

theorem IsPath.tail {first second : List Char} {runs : List (List Char)}
    (h : IsPath (first :: second :: runs)) : IsPath (second :: runs) where
  ne_nil := List.cons_ne_nil second runs
  run_ne_nil run hmem := h.run_ne_nil run (List.mem_cons_of_mem first hmem)
  isWordChar run hmem := h.isWordChar run (List.mem_cons_of_mem first hmem)

/-- Whether runs of characters make a path can be computed. -/
theorem IsPath.of_all {runs : List (List Char)} (hne : runs ≠ [])
    (h : runs.all (fun run => !run.isEmpty && run.all Token.isWordChar) = true) : IsPath runs := by
  have hrun (run : List Char) (hmem : run ∈ runs) :
      run.isEmpty = false ∧ run.all Token.isWordChar = true := by
    simpa using List.all_eq_true.mp h run hmem
  refine ⟨hne, fun run hmem => ?_, fun run hmem => ?_⟩
  · exact List.isEmpty_eq_false_iff.mp (hrun run hmem).1
  · exact List.all_eq_true.mp (hrun run hmem).2

theorem head_not_digit {spelling : List Char}
    (h : spelling.head?.all (fun c => !c.isDigit) = true) :
    ∀ c ∈ spelling.head?, c.isDigit = false := by
  intro c hc
  rw [hc] at h
  simpa using h

/-- A path begins with a word character. -/
theorem IsPath.head {runs : List (List Char)} (h : IsPath runs) :
    ∃ c tail, List.intercalate ['.'] runs = c :: tail ∧ Token.isWordChar c = true := by
  cases runs with
  | nil => exact absurd rfl h.ne_nil
  | cons first runs =>
      cases first with
      | nil => exact absurd rfl (h.run_ne_nil [] List.mem_cons_self)
      | cons c first =>
          have hc := h.isWordChar (c :: first) List.mem_cons_self c List.mem_cons_self
          cases runs with
          | nil => exact ⟨c, first, by simp [List.intercalate], hc⟩
          | cons second runs => exact ⟨c, _, by simp [List.intercalate]; rfl, hc⟩

theorem IsPath.splitWord {runs : List (List Char)} (h : IsPath runs) (hrest : AtGap rest) :
    splitWord (List.intercalate ['.'] runs ++ rest) = (List.intercalate ['.'] runs, rest) := by
  induction runs with
  | nil => exact absurd rfl h.ne_nil
  | cons first runs ih =>
      have hfirst := h.isWordChar first List.mem_cons_self
      cases runs with
      | nil =>
          have hsingle : List.intercalate ['.'] [first] = first := by simp [List.intercalate]
          rw [hsingle, splitWord_run hfirst, splitWord_of_atGap hrest, List.append_nil]
      | cons second runs =>
          have hcons : List.intercalate ['.'] (first :: second :: runs) =
              first ++ '.' :: List.intercalate ['.'] (second :: runs) := by
            simp [List.intercalate]
          obtain ⟨c, tail, htail, hc⟩ := h.tail.head
          have hlater := ih h.tail
          rw [htail, List.cons_append] at hlater
          rw [hcons, htail, List.append_assoc, List.cons_append, List.cons_append,
            splitWord_run hfirst, splitWord_dot hc, hlater]

theorem scanWord_path {runs : List (List Char)} (h : IsPath runs) (hrest : AtGap rest) :
    scanWord (List.intercalate ['.'] runs ++ rest) =
      .token (ofWord (String.ofList (List.intercalate ['.'] runs)))
        (List.intercalate ['.'] runs) rest := by
  unfold scanWord
  rw [h.splitWord hrest]

theorem ofWord_of_not_mem {word : String} (h : ∀ value, word ∉ Word.truthWords value) :
    ofWord word = .word word := by
  have htrue : (Word.truthWords true).contains word = false := by simpa using h true
  have hfalse : (Word.truthWords false).contains word = false := by simpa using h false
  rw [ofWord, htrue, hfalse]
  rfl

theorem ofWord_of_mem {value : Bool} {word : String} (h : word ∈ Word.truthWords value) :
    ofWord word = .truth value := by
  cases value with
  | true =>
      rw [ofWord, if_pos (List.contains_iff_mem.mpr h)]
  | false =>
      have htrue : (Word.truthWords true).contains word = false := by
        rcases List.mem_cons.mp h with rfl | h
        · decide
        · rw [List.mem_singleton.mp h]
          decide
      rw [ofWord, htrue, if_neg Bool.false_ne_true, if_pos (List.contains_iff_mem.mpr h)]

end Words

/-- The spelling begins with no gap and is read as the token, whatever comes behind a gap
or the end of the text. -/
def ReadsAs (kind : Kind) (spelling : List Char) : Prop :=
  ∃ c tail, spelling = c :: tail ∧ startsGap c = false ∧
    ∀ rest, AtGap rest → scan c (tail ++ rest) = .token kind spelling rest

section Tokens

theorem scan_of_isDigit {c : Char} (h : c.isDigit = true) (rest : List Char) :
    scan c rest = scanNumber (c :: rest) := by
  obtain ⟨hsymbol, hcomparison, hquote⟩ := signs_of_isWordChar (isWordChar_of_isDigit h)
  rw [scan, hsymbol, hcomparison, hquote]
  dsimp only
  rw [if_pos h]

theorem scan_of_isWordChar {c : Char} (h : isWordChar c = true) (hdigit : c.isDigit = false)
    (rest : List Char) : scan c rest = scanWord (c :: rest) := by
  obtain ⟨hsymbol, hcomparison, hquote⟩ := signs_of_isWordChar h
  rw [scan, hsymbol, hcomparison, hquote]
  dsimp only
  rw [hdigit, if_neg Bool.false_ne_true, if_pos h]

theorem readsAs_char {c : Char} {sign : Symbol} (hgap : startsGap c = false)
    (h : symbolOfChar? c = some sign) : ReadsAs (.symbol sign) [c] := by
  refine ⟨c, [], rfl, hgap, fun rest _ => ?_⟩
  rw [List.nil_append, scan, h]

/-- An operator of one character is not continued by a gap. -/
theorem readsAs_alone {c : Char} {operator both : Operator} (hgap : startsGap c = false)
    (hsymbol : symbolOfChar? c = none) (h : comparisonOfChar? c = some (some operator, both)) :
    ReadsAs (.symbol (.operator operator)) [c] := by
  refine ⟨c, [], rfl, hgap, fun rest hrest => ?_⟩
  rw [List.nil_append, scan, hsymbol, h]
  dsimp only
  unfold scanComparison
  split
  · exact absurd rfl (ne_of_startsGap (hrest '=' rfl) (by decide))
  · rfl

theorem readsAs_both {c : Char} {alone : Option Operator} {operator : Operator}
    (hgap : startsGap c = false) (hsymbol : symbolOfChar? c = none)
    (h : comparisonOfChar? c = some (alone, operator)) :
    ReadsAs (.symbol (.operator operator)) [c, '='] := by
  refine ⟨c, ['='], rfl, hgap, fun rest _ => ?_⟩
  rw [List.singleton_append, scan, hsymbol, h]
  rfl

theorem readsAs_symbol (sign : Symbol) : ReadsAs (.symbol sign) sign.text.toList := by
  cases sign with
  | leftBrace | rightBrace | leftParen | rightParen | comma =>
      exact readsAs_char (by decide) rfl
  | operator operator =>
      cases operator with
      | add | sub | mul | div => exact readsAs_char (by decide) rfl
      | lt | gt => exact readsAs_alone (by decide) rfl rfl
      | eq | ne | le | ge => exact readsAs_both (by decide) rfl rfl

theorem readsAs_path {runs : List (List Char)} (h : IsPath runs)
    (hdigit : ∀ c ∈ (List.intercalate ['.'] runs).head?, c.isDigit = false) :
    ReadsAs (ofWord (String.ofList (List.intercalate ['.'] runs)))
      (List.intercalate ['.'] runs) := by
  obtain ⟨c, tail, hspelling, hc⟩ := h.head
  refine ⟨c, tail, hspelling, startsGap_of_isWordChar hc, fun rest hrest => ?_⟩
  have hfirst : c.isDigit = false := hdigit c (by rw [hspelling]; rfl)
  rw [scan_of_isWordChar hc hfirst, ← List.cons_append, ← hspelling]
  exact scanWord_path h hrest

theorem readsAs_truth {value : Bool} {word : String} (h : word ∈ Word.truthWords value) :
    ReadsAs (.truth value) word.toList := by
  have hpath : IsPath [word.toList] ∧ ∀ c ∈ word.toList.head?, c.isDigit = false := by
    cases value with
    | true =>
        rcases List.mem_cons.mp h with rfl | h
        · exact ⟨.of_all (by decide) (by decide +kernel), head_not_digit (by decide)⟩
        · rw [List.mem_singleton.mp h]
          exact ⟨.of_all (by decide) (by decide +kernel), head_not_digit (by decide)⟩
    | false =>
        rcases List.mem_cons.mp h with rfl | h
        · exact ⟨.of_all (by decide) (by decide +kernel), head_not_digit (by decide)⟩
        · rw [List.mem_singleton.mp h]
          exact ⟨.of_all (by decide) (by decide +kernel), head_not_digit (by decide)⟩
  have hsingle : List.intercalate ['.'] [word.toList] = word.toList := by
    simp [List.intercalate]
  have hreads := readsAs_path hpath.1 (by rw [hsingle]; exact hpath.2)
  rw [hsingle, String.ofList_toList, ofWord_of_mem h] at hreads
  exact hreads

theorem readsAs_number {value : Float} {spelling : List Char}
    (hhead : ∃ d tail, spelling = d :: tail ∧ d.isDigit = true)
    (h : ∀ rest, AtGap rest →
      scanNumber (spelling ++ rest) = .token (.number value) spelling rest) :
    ReadsAs (.number value) spelling := by
  obtain ⟨d, tail, rfl, hd⟩ := hhead
  refine ⟨d, tail, rfl, startsGap_of_isWordChar (isWordChar_of_isDigit hd), fun rest hrest => ?_⟩
  rw [scan_of_isDigit hd, ← List.cons_append]
  exact h rest hrest

theorem readsAs_quoted {quote close : Char} (hgap : startsGap quote = false)
    (hsymbol : symbolOfChar? quote = none) (hcomparison : comparisonOfChar? quote = none)
    (hquote : closingQuote? quote = some close) (hclose : close ≠ '\\')
    (hplain : escapedChar close = close) (value : String) :
    ReadsAs (.text value) (quote :: escape close value.toList ++ [close]) := by
  refine ⟨quote, escape close value.toList ++ [close], rfl, hgap, fun rest _ => ?_⟩
  rw [scan, hsymbol, hcomparison, hquote, List.append_assoc]
  exact scanQuoted_escape quote hclose hplain value rest

theorem exists_digit {digits : List Char} (hne : digits ≠ [])
    (h : ∀ d ∈ digits, d.isDigit = true) : ∃ d tail, digits = d :: tail ∧ d.isDigit = true := by
  obtain ⟨d, tail, rfl⟩ := List.exists_cons_of_ne_nil hne
  exact ⟨d, tail, rfl, h d List.mem_cons_self⟩

/-- Every written form of a token is read as that token. -/
theorem Spells.readsAs {kind : Kind} {spelling : List Char} (h : Spells kind spelling) :
    ReadsAs kind spelling := by
  cases h with
  | symbol sign => exact readsAs_symbol sign
  | wideLeftParen | wideRightParen | wideComma => exact readsAs_char (by decide) rfl
  | truth value hword => exact readsAs_truth hword
  | text value | wideText value =>
      exact readsAs_quoted (by decide) rfl rfl rfl (by decide) rfl value
  | whole hne hdigits =>
      exact readsAs_number (exists_digit hne hdigits) fun rest => scanNumber_whole hne hdigits
  | @fraction whole fraction hwhole hfraction hwholes hfractions =>
      refine readsAs_number ?_ fun rest hrest => ?_
      · obtain ⟨d, tail, rfl, hd⟩ := exists_digit hwhole hwholes
        exact ⟨d, tail ++ '.' :: fraction, rfl, hd⟩
      · rw [List.append_assoc]
        exact scanNumber_fraction hfraction hwholes hfractions hrest
  | word hpath hdigit htruth =>
      have hreads := readsAs_path hpath hdigit
      rw [ofWord_of_not_mem htruth] at hreads
      exact hreads

end Tokens

end Token

/-- The stream with one more token in front. -/
def TokenStream.push (token : Token) (stream : TokenStream) : TokenStream :=
  { stream with tokens := token :: stream.tokens }

namespace Cursor

open Token (Kind Gap Written AtGap)

variable {text gap : List Char} {place : Position}

theorem readFrom_of_gap (h : Token.splitGap false text = (gap, [])) :
    readFrom text place =
      (.ok { tokens := [], stop := place.after gap }, ⟨[], place.after gap⟩) := by
  rw [readFrom]
  split
  · rw [h]
  · next c rest hrest =>
      rw [h] at hrest
      cases hrest

/-- What is read from the token or the fault at a place on. -/
def readScan (here : Position) : Token.Scan → Except (Located LexicalFault) TokenStream × Cursor
  | .token kind spelling after =>
    let read := readFrom after (here.after spelling)
    (read.1.map (.push ⟨kind, here⟩), read.2)
  | .fault cause passed after => (.error ⟨cause, here⟩, ⟨after, here.after passed⟩)

section Scans

variable {c : Char} {rest spelling passed after : List Char} {kind : Kind}

/-- Behind a gap reading goes by the scan of what stands there. -/
theorem readFrom_of_scan (hgap : Token.splitGap false text = (gap, c :: rest)) :
    readFrom text place = readScan (place.after gap) (Token.scan c rest) := by
  rw [readFrom]
  split
  · next hnone =>
      rw [hgap] at hnone
      cases hnone
  · next c' rest' hsome =>
      rw [hgap] at hsome
      obtain ⟨rfl, rfl⟩ := List.cons.inj hsome
      simp only [hgap]
      split
      · next kind spelling after hscan =>
          rw [hscan, readScan]
          obtain ⟨result, cursor⟩ := readFrom after ((place.after gap).after spelling)
          cases result <;> rfl
      · next hscan => rw [hscan, readScan]

/-- A token in front of what is read behind it, be it tokens or a fault. -/
theorem readFrom_of_token {result : Except (Located LexicalFault) TokenStream} {cursor : Cursor}
    (hgap : Token.splitGap false text = (gap, c :: rest))
    (hscan : Token.scan c rest = .token kind spelling after)
    (hread : readFrom after ((place.after gap).after spelling) = (result, cursor)) :
    readFrom text place = (result.map (.push ⟨kind, place.after gap⟩), cursor) := by
  rw [readFrom_of_scan hgap, hscan, readScan, hread]

theorem readFrom_of_fault {cause : LexicalFault}
    (hgap : Token.splitGap false text = (gap, c :: rest))
    (hscan : Token.scan c rest = .fault cause passed after) :
    readFrom text place =
      (.error ⟨cause, place.after gap⟩, ⟨after, (place.after gap).after passed⟩) := by
  rw [readFrom_of_scan hgap, hscan, readScan]

end Scans

theorem after_append (place : Position) (text rest : List Char) :
    place.after (text ++ rest) = (place.after text).after rest :=
  List.foldl_append

/-- Reading goes through the whole text, token by token. -/
theorem readFrom_written {kinds : List Kind} {body : List Char} (hbody : Written kinds body)
    (hgap : Gap gap) (place : Position) :
    ∃ stream, readFrom (gap ++ body) place = (.ok stream, ⟨[], stream.stop⟩) ∧
      stream.tokens.map Token.kind = kinds ∧ stream.stop = place.after (gap ++ body) := by
  induction hbody generalizing gap place with
  | nil =>
      have hsplit : Token.splitGap false (gap ++ []) = (gap, []) :=
        hgap.splitGap fun c hc => by cases hc
      refine ⟨{ tokens := [], stop := place.after gap }, readFrom_of_gap hsplit, rfl, ?_⟩
      rw [List.append_nil]
  | @cons kind kinds spelling behind rest hspells hbehind hseparated hrest ih =>
      obtain ⟨c, tail, rfl, hc, hscan⟩ := hspells.readsAs
      have hsplit : Token.splitGap false (gap ++ (c :: tail ++ behind ++ rest)) =
          (gap, c :: (tail ++ (behind ++ rest))) := by
        rw [hgap.splitGap]
        · simp
        · intro other hother
          cases hother
          exact hc
      have hend : AtGap (behind ++ rest) := by
        by_cases hmore : behind = []
        · -- Without a gap behind it the token is the last one.
          have hlast : kinds = [] := Classical.not_not.mp fun hne => hseparated hne hmore
          subst hmore hlast
          cases hrest
          intro other hother
          cases hother
        · exact hbehind.head hmore rest
      obtain ⟨stream, hread, hkinds, hstop⟩ := ih hbehind ((place.after gap).after (c :: tail))
      refine ⟨_, readFrom_of_token hsplit (hscan _ hend) hread, ?_, ?_⟩
      · exact congrArg (List.cons kind) hkinds
      · refine hstop.trans ?_
        rw [after_append, after_append, after_append, after_append]

end Cursor

/-- Tokens that are written one after another, with gaps between them, are read back
from the text, and nothing else is read up to its end. -/
theorem TokenStream.ofText_written {kinds : List Token.Kind} {gap body : List Char}
    (hgap : Token.Gap gap) (hbody : Token.Written kinds body) :
    ∃ stream, TokenStream.ofText (String.ofList (gap ++ body)) = .ok stream ∧
      stream.tokens.map Token.kind = kinds ∧
      stream.stop = Position.start.after (gap ++ body) := by
  obtain ⟨stream, hread, hkinds, hstop⟩ := Cursor.readFrom_written hbody hgap .start
  refine ⟨stream, ?_, hkinds, hstop⟩
  rw [TokenStream.ofText, Cursor.ofText, Cursor.tokenize, String.toList_ofList, hread]

/-- Tokens of every kind. -/
def Token.mixedKinds : List Token.Kind :=
  [.word "甲.乙", .symbol .leftParen, .text "a\"", .symbol .comma,
    .number 1.5, .symbol .rightParen, .symbol (.operator .le), .truth true]

/-- The tokens written with white space, a comment and both widths. -/
def Token.mixedText : List Char :=
  ['甲', '.', '乙'] ++ [' '] ++ (['（'] ++ [' '] ++ (['"', 'a', '\\', '"', '"'] ++ ['\t'] ++
    (['、'] ++ [' '] ++ (['1', '.', '5'] ++ ['※', '註', '\n', ' '] ++ ([')'] ++ [' '] ++
      (['<', '='] ++ [' '] ++ (['真'] ++ [] ++ [])))))))

theorem TokenStream.ofText_written_mixedText :
    Token.Gap ['※', '\n'] ∧ Token.Written Token.mixedKinds Token.mixedText ∧
      ∃ stream, TokenStream.ofText (String.ofList (['※', '\n'] ++ Token.mixedText)) = .ok stream ∧
        stream.tokens.map Token.kind = Token.mixedKinds ∧
        stream.stop = Position.start.after (['※', '\n'] ++ Token.mixedText) := by
  have hgap : Token.Gap ['※', '\n'] := .comment List.not_mem_nil .nil
  have hblank : Token.Gap [' '] := .space rfl .nil
  have hnote : Token.Gap ['※', '註', '\n', ' '] := .comment (by decide : '\n' ∉ ['註']) hblank
  have hpath : Token.IsPath [['甲'], ['乙']] := .of_all (by decide) (by decide +kernel)
  have hnumber : Token.Spells (.number 1.5) ['1', '.', '5'] :=
    Token.Spells.fraction (List.cons_ne_nil '1' []) (List.cons_ne_nil '5' [])
      (List.all_eq_true.mp rfl) (List.all_eq_true.mp rfl)
  have hbody : Token.Written Token.mixedKinds Token.mixedText :=
    .cons (.word hpath (Token.head_not_digit rfl) (by decide)) hblank (by decide) <|
    .cons .wideLeftParen hblank (by decide) <|
    .cons (.text "a\"") (.space rfl .nil) (by decide) <|
    .cons .wideComma hblank (by decide) <|
    .cons hnumber hnote (by decide) <|
    .cons (.symbol .rightParen) hblank (by decide) <|
    .cons (.symbol (.operator .le)) hblank (by decide) <|
    .cons (.truth true List.mem_cons_self) .nil (fun hne => absurd rfl hne) .nil
  exact ⟨hgap, hbody, TokenStream.ofText_written hgap hbody⟩

end Wabun
