import Mathlib.Data.List.Induction
import Wabun.Console.Report
import Wabun.Node.Lowering
import Wabun.Proofs.Reading
import Wabun.Proofs.Spelling
import Wabun.Proofs.Trail

/-!
Every place that a diagnostic names is a place of the source. Reading goes through the
text by gaps and tokens, and keeps count of lines and columns by the characters that
it passes. So it can name only the first characters of tokens, a character that it
cannot read, and the end of the text. A report looks the place up in the lines of the
source, which are taken apart anew there, and finds that character.
-/

namespace Wabun

namespace Position

/-- The place behind a text: its line feeds count the lines, and the characters behind
the last line feed count the columns. -/
def behind (text : List Char) : Position :=
  ⟨1 + text.count '\n', 1 + (text.reverse.takeWhile (· != '\n')).length⟩

theorem behind_concat (text : List Char) (c : Char) :
    behind (text ++ [c]) = (behind text).next c := by
  by_cases hc : c = '\n'
  · simp [behind, next, hc]
    omega
  · simp [behind, next, hc]
    omega

/-- A text goes on to later lines only. -/
theorem line_le_after (place : Position) (text : List Char) :
    place.line ≤ (place.after text).line := by
  induction text generalizing place with
  | nil => exact Nat.le_refl _
  | cons c rest ih =>
      have hnext : place.line ≤ (place.next c).line := by
        rw [next]
        split
        · exact Nat.le_succ _
        · exact Nat.le_refl _
      exact Nat.le_trans hnext (ih (place.next c))

theorem start_after (text : List Char) : start.after text = behind text := by
  induction text using List.reverseRecOn with
  | nil => rfl
  | append_singleton text c ih =>
      rw [behind_concat, ← ih]
      simp [after]

end Position

namespace Token

/-- The reader of tokens comes to stand between two parts of the source: at its
beginning, and behind every token. -/
inductive Reached (source : List Char) : List Char → List Char → Prop
  | start : Reached source [] source
  | token {before text gap c rest kind spelling after} : Reached source before text →
    splitGap false text = (gap, c :: rest) → scan c rest = .token kind spelling after →
    Reached source (before ++ gap ++ spelling) after

/-- When the reader of tokens has passed a gap it finds this character. With it a token
of the source begins, or it cannot be read. -/
inductive HeadAt (source : List Char) : List Char → Char → List Char → Prop
  | behindGap {before text gap c rest} : Reached source before text →
    splitGap false text = (gap, c :: rest) → HeadAt source (before ++ gap) c rest

/-- What keeps a character from being the beginning of a token. -/
inductive Unreadable (c : Char) (rest : List Char) : LexicalFault → Prop
  | stray : symbolOfChar? c = none → comparisonOfChar? c = none → closingQuote? c = none →
    c.isDigit = false → isWordChar c = false → Unreadable c rest (.strayCharacter c)
  | lone : c = '=' ∨ c = '!' → rest.head? ≠ some '=' → Unreadable c rest (.loneCharacter c)
  | unterminated {close} : closingQuote? c = some close → splitQuoted close rest = none →
    Unreadable c rest .unterminatedText

section Heads

variable {source before text gap rest after : List Char} {c : Char}

theorem append_of_splitGap {inComment : Bool} (h : splitGap inComment text = (gap, rest)) :
    gap ++ rest = text := by
  have happend := splitGap_append inComment text
  rwa [h] at happend

theorem isSpace_of_splitGap {inComment : Bool}
    (h : splitGap inComment text = (gap, c :: rest)) : Text.isSpace c = false := by
  induction text generalizing inComment gap with
  | nil => simp [splitGap] at h
  | cons first others ih =>
      rw [splitGap] at h
      split at h
      · obtain ⟨_, hrest⟩ := Prod.mk.inj h
        exact ih (Prod.ext rfl hrest)
      · next hstop =>
          obtain ⟨rfl, rfl⟩ := List.cons.inj (Prod.mk.inj h).2
          simp only [Bool.or_eq_true, not_or, Bool.not_eq_true] at hstop
          exact hstop.1.2

theorem Reached.append (h : Reached source before text) : before ++ text = source := by
  induction h with
  | start => rfl
  | token _ hgap hscan ih =>
      rw [← ih, ← append_of_splitGap hgap, ← scan_append hscan]
      simp

theorem HeadAt.append (h : HeadAt source before c rest) : before ++ c :: rest = source := by
  obtain ⟨hreached, hgap⟩ := h
  rw [List.append_assoc, append_of_splitGap hgap, hreached.append]

theorem HeadAt.isSpace (h : HeadAt source before c rest) : Text.isSpace c = false := by
  obtain ⟨_, hgap⟩ := h
  exact isSpace_of_splitGap hgap

/-- Of the characters that form operators, two form none alone. -/
theorem eq_of_comparisonOfChar? {both : Operator} (h : comparisonOfChar? c = some (none, both)) :
    c = '=' ∨ c = '!' := by
  unfold comparisonOfChar? at h
  split at h
  · exact .inl rfl
  · exact .inr rfl
  all_goals cases h

theorem unreadable_of_scan {cause : LexicalFault} {passed : List Char}
    (h : scan c rest = .fault cause passed after) : Unreadable c rest cause := by
  unfold scan at h
  split at h
  · cases h
  · next alone both hsymbol hcomparison =>
      unfold scanComparison at h
      split at h
      · cases h
      · next hnext =>
          cases alone with
          | some op => cases h
          | none =>
              cases h
              refine .lone (eq_of_comparisonOfChar? hcomparison) ?_
              intro hhead
              obtain ⟨others, rfl⟩ := List.head?_eq_some_iff.mp hhead
              exact hnext others rfl
  · next close hsymbol hcomparison hquote =>
      unfold scanQuoted at h
      split at h
      · cases h
      · next hopen =>
          cases h
          exact .unterminated hquote hopen
  · next hsymbol hcomparison hquote =>
      split at h
      · next hdigit =>
          obtain ⟨value, _, hnumber⟩ := exists_scanNumber hdigit rest
          rw [hnumber] at h
          cases h
      · next hdigit =>
          split at h
          · cases h
          · next hword =>
              cases h
              exact .stray hsymbol hcomparison hquote (Bool.eq_false_iff.mpr hdigit)
                (Bool.eq_false_iff.mpr hword)

end Heads

/-- A token of the source, at the place of its first character. -/
def StandsIn (source : List Char) (token : Token) : Prop :=
  ∃ before c rest spelling after, HeadAt source before c rest ∧
    scan c rest = .token token.kind spelling after ∧ token.place = .behind before

end Token

/-- What can be said of the tokens of a source, or of the character that cannot be read. -/
inductive Token.PlacedIn (source : List Char) : Except (Located LexicalFault) TokenStream → Prop
  | tokens {stream} : (∀ token ∈ stream.tokens, StandsIn source token) →
    stream.stop = .behind source → PlacedIn source (.ok stream)
  | fault {before c rest cause} : HeadAt source before c rest → Unreadable c rest cause →
    PlacedIn source (.error ⟨cause, .behind before⟩)

namespace Cursor

open Token (Reached HeadAt)

theorem behind_after (before text : List Char) :
    (Position.behind before).after text = .behind (before ++ text) := by
  rw [← Position.start_after, ← Position.start_after, after_append]

/-- Reading from any place that it comes to, by induction on what is left of the text. -/
theorem placedIn_readFrom {source before text : List Char} (h : Reached source before text) :
    Token.PlacedIn source (readFrom text (.behind before)).1 := by
  induction hlength : text.length using Nat.strongRecOn generalizing before text with
  | ind length ih =>
      cases hsplit : Token.splitGap false text with
      | mk gap others =>
          cases others with
          | nil =>
              have hwhole : before ++ gap = source := by
                rw [← h.append, ← Token.append_of_splitGap hsplit, List.append_nil]
              rw [readFrom_of_gap hsplit, behind_after, hwhole]
              exact .tokens (fun token hmem => absurd hmem List.not_mem_nil) rfl
          | cons c rest =>
              have hhead : HeadAt source (before ++ gap) c rest := .behindGap h hsplit
              cases hscan : Token.scan c rest with
              | fault cause passed after =>
                  rw [readFrom_of_fault hsplit hscan, behind_after]
                  exact .fault hhead (Token.unreadable_of_scan hscan)
              | token kind spelling after =>
                  have hshorter : after.length < length :=
                    hlength ▸ Token.length_lt_of_scan (congrArg Prod.snd hsplit) hscan
                  have hrest := ih after.length hshorter (h.token hsplit hscan) rfl
                  rw [← behind_after, ← behind_after] at hrest
                  cases hread : readFrom after (((Position.behind before).after gap).after spelling)
                    with
                  | mk result cursor =>
                      rw [hread] at hrest
                      rw [readFrom_of_token hsplit hscan hread, behind_after]
                      cases hrest with
                      | tokens htokens hstop =>
                          refine .tokens ?_ hstop
                          intro token hmem
                          rcases List.mem_cons.mp hmem with rfl | hmem
                          · exact ⟨before ++ gap, c, rest, spelling, after, hhead, hscan, rfl⟩
                          · exact htokens token hmem
                      | fault hlater hcause => exact .fault hlater hcause

theorem placedIn_ofText (source : String) :
    Token.PlacedIn source.toList (TokenStream.ofText source) :=
  placedIn_readFrom .start

end Cursor

namespace Console

open Position

variable {place : Position} {c : Char} {text rest reversed line : List Char}

/-- What stands in the line at hand stands in the line when it is ended, but for a
carriage return. -/
theorem getElem?_ended {column : Nat} (hc : c ≠ '\r') (h : reversed.reverse[column]? = some c) :
    (sourceLines.ended reversed)[column]? = some c := by
  unfold sourceLines.ended
  split
  · next others =>
      rw [List.reverse_cons, List.getElem?_append] at h
      split at h
      · exact h
      · next hlast =>
          rw [List.getElem?_singleton] at h
          split at h
          · exact absurd (Option.some.inj h).symm hc
          · cases h
  · exact h

/-- The line at hand becomes the first line, with what it has so far. -/
theorem getElem?_first_line {column : Nat} (hc : c ≠ '\r')
    (h : reversed.reverse[column]? = some c) :
    ∃ row, (sourceLines.go reversed rest)[0]? = some row ∧ row[column]? = some c := by
  induction rest generalizing reversed with
  | nil =>
      have hne : reversed.isEmpty = false := by
        cases reversed with
        | nil => simp at h
        | cons last others => rfl
      refine ⟨reversed.reverse, ?_, h⟩
      simp [sourceLines.go, hne]
  | cons next others ih =>
      rw [sourceLines.go]
      split
      · exact ⟨_, rfl, getElem?_ended hc h⟩
      · apply ih
        rw [List.reverse_cons]
        exact List.getElem?_append_left (List.getElem?_eq_some_iff.mp h).1 ▸ h

theorem next_of_ne (h : c ≠ '\n') : place.next c = ⟨place.line, place.col + 1⟩ := by
  rw [Position.next, if_neg h]

/-- Behind a line feed the lines are counted on from the next one. -/
theorem line_after_newline (place : Position) (text : List Char) :
    (place.after ('\n' :: text)).line - place.line =
      ((⟨place.line + 1, 1⟩ : Position).after text).line - (place.line + 1) + 1 := by
  have hle := line_le_after ⟨place.line + 1, 1⟩ text
  change ((⟨place.line + 1, 1⟩ : Position).after text).line - place.line = _
  dsimp only at hle
  omega

/-- Counting lines and columns leads to the character that stands there, if the line at
hand is as long as the column says. -/
theorem getElem?_lines_after (hspace : Text.isSpace c = false)
    (hcol : place.col = reversed.length + 1) :
    ∃ row, (sourceLines.go reversed (text ++ c :: rest))[(place.after text).line - place.line]? =
      some row ∧ row[(place.after text).col - 1]? = some c := by
  have hnewline : c ≠ '\n' := by
    rintro rfl
    exact absurd hspace (by decide)
  have hreturn : c ≠ '\r' := by
    rintro rfl
    exact absurd hspace (by decide)
  induction text generalizing reversed place with
  | nil =>
      have hfirst : (c :: reversed).reverse[reversed.length]? = some c := by
        simp
      rw [List.nil_append, sourceLines.go, if_neg hnewline]
      simpa [after, hcol] using getElem?_first_line hreturn hfirst
  | cons next others ih =>
      rw [List.cons_append, sourceLines.go]
      by_cases hnext : next = '\n'
      · subst hnext
        rw [if_pos rfl, line_after_newline, List.getElem?_cons_succ]
        exact ih rfl
      · have hafter : place.after (next :: others) =
            (⟨place.line, place.col + 1⟩ : Position).after others := by
          rw [after, List.foldl_cons, next_of_ne hnext, after]
        rw [if_neg hnext, hafter]
        apply ih
        rw [List.length_cons, ← hcol]

/-- At the end of the text the last line is as long as the column says, unless it is
empty and not shown. -/
theorem length_last_line (hcol : place.col = reversed.length + 1)
    (h : (sourceLines.go reversed text)[(place.after text).line - place.line]? = some line) :
    (place.after text).col - 1 = line.length := by
  induction text generalizing reversed place with
  | nil =>
      rw [sourceLines.go] at h
      split at h
      · simp at h
      · have hline : line = reversed.reverse := by
          simpa [after] using h.symm
        rw [hline, List.length_reverse]
        simp [after, hcol]
  | cons next others ih =>
      rw [sourceLines.go] at h
      by_cases hnext : next = '\n'
      · subst hnext
        rw [if_pos rfl, line_after_newline, List.getElem?_cons_succ] at h
        have hfresh : (⟨place.line + 1, 1⟩ : Position).col = ([] : List Char).length + 1 := rfl
        exact ih hfresh h
      · have hafter : place.after (next :: others) =
            (⟨place.line, place.col + 1⟩ : Position).after others := by
          rw [after, List.foldl_cons, next_of_ne hnext, after]
        rw [if_neg hnext, hafter] at h
        rw [hafter]
        exact ih (by rw [List.length_cons, ← hcol]) h

theorem line_at_head {source : String} {before : List Char}
    (h : Token.HeadAt source.toList before c rest) :
    ∃ line, (sourceLines source)[(behind before).line - 1]? = some line ∧
      line.toList[(behind before).col - 1]? = some c := by
  have hstart : start.col = ([] : List Char).length + 1 := rfl
  obtain ⟨row, hrow, hc⟩ : ∃ row, (sourceLines.go [] (before ++ c :: rest))[_]? = some row ∧
      row[(start.after before).col - 1]? = some c :=
    getElem?_lines_after h.isSpace hstart
  rw [h.append, start_after] at hrow
  rw [start_after] at hc
  refine ⟨String.ofList row, ?_, ?_⟩
  · rw [sourceLines, List.getElem?_map]
    exact congrArg (Option.map String.ofList) hrow
  · rw [String.toList_ofList]
    exact hc

theorem length_line_at_end {source line : String}
    (h : (sourceLines source)[(behind source.toList).line - 1]? = some line) :
    (behind source.toList).col - 1 = line.length := by
  rw [sourceLines, List.getElem?_map] at h
  obtain ⟨characters, hcharacters, rfl⟩ := Option.map_eq_some_iff.mp h
  rw [← start_after] at hcharacters ⊢
  have hstart : start.col = ([] : List Char).length + 1 := rfl
  rw [length_last_line hstart hcharacters, String.length_ofList]

end Console

/-- What a diagnostic with a place is about, if it stands before the end of the text: a
token that the grammar does not accept, or a character that cannot be read. -/
inductive Diagnostic.Found (source : String) (before : List Char) (c : Char) (rest : List Char) :
    Diagnostic → Prop
  | token {stream token expected spelling after} : TokenStream.ofText source = .ok stream →
    token ∈ stream.tokens → Token.scan c rest = .token token.kind spelling after →
    token.place = .behind before →
    Found source before c rest (.ofGrammar ⟨⟨expected, some token.kind⟩, .behind before⟩)
  | character {cause} : TokenStream.ofText source = .error ⟨cause, .behind before⟩ →
    Token.Unreadable c rest cause →
    Found source before c rest (.ofLexical ⟨cause, .behind before⟩)

namespace Diagnostic

/-- The place of a diagnostic is where a token or an unreadable character begins, or it is
the end of the text. -/
inductive IsPlaced (source : String) : Diagnostic → Position → Prop
  | found {diagnostic before c rest} : Token.HeadAt source.toList before c rest →
    Found source before c rest diagnostic → IsPlaced source diagnostic (.behind before)
  | finish {stream expected} : TokenStream.ofText source = .ok stream →
    IsPlaced source (.ofGrammar ⟨⟨expected, none⟩, .behind source.toList⟩) (.behind source.toList)

variable {source : String} {diagnostic : Diagnostic}

theorem isPlaced_of_ofText (h : Phrase.ofText source = .error diagnostic) :
    ∃ place, diagnostic.stage = .text ∧ diagnostic.place = some place ∧
      diagnostic.IsPlaced source place := by
  have hplaced := Cursor.placedIn_ofText source
  obtain ⟨located, hread, hfault⟩ | ⟨stream, hstream, ⟨located, rest, hread, hfault⟩ | hphrase⟩ :=
    Phrase.ofText_cases source
  · rw [hfault] at h
    cases h
    rw [hread] at hplaced
    cases hplaced with
    | fault hhead hcause => exact ⟨_, rfl, rfl, .found hhead (.character hread hcause)⟩
  · rw [hfault] at h
    cases h
    rw [hstream] at hplaced
    cases hplaced with
    | tokens htokens hstop =>
        obtain ⟨hbehind, hfound, hplace⟩ := Parse.stays_program.error hread
        obtain ⟨⟨expected, found⟩, place⟩ := located
        dsimp only at hfound hplace
        obtain ⟨token, hmem, hnext, htoken⟩ | ⟨hnext, hend⟩ := hbehind.place
        · obtain ⟨before, c, others, spelling, after, hhead, hscan, hat⟩ := htokens token hmem
          rw [hfound, hplace, hnext, htoken, hat]
          exact ⟨_, rfl, rfl, .found hhead (.token hstream hmem hscan hat)⟩
        · rw [hfound, hplace, hnext, hend, hstop]
          exact ⟨_, rfl, rfl, .finish hstream⟩
  · obtain ⟨phrase, rest, _, hok⟩ := hphrase
    rw [hok] at h
    cases h

/-- A text has no program because it cannot be read, or because what is read has no
meaning. -/
theorem ofText_cases (h : Node.ofText source = .error diagnostic) :
    Phrase.ofText source = .error diagnostic ∨ ∃ message, diagnostic = .ofMeaning message := by
  rw [Node.ofText] at h
  cases hphrase : Phrase.ofText source with
  | error fault =>
      rw [hphrase] at h
      exact .inl (congrArg Except.error (Except.error.inj h))
  | ok phrase =>
      rw [hphrase] at h
      change Node.ofPhrase phrase = .error diagnostic at h
      rw [Node.ofPhrase] at h
      split at h
      · cases h
      · cases h
        exact .inr ⟨_, rfl⟩

/-- A text without a program is reported either without a place, for a fault of its
meaning, or at a place of the text: at the first character of a token, at a character that
cannot be read, or at the end. The lines of the text show a character that is no white
space there, and no line that is shown is too short for the mark below it. -/
theorem failures_are_located (h : Node.ofText source = .error diagnostic) :
    (diagnostic.stage = .meaning ∧ diagnostic.place = none ∨
      diagnostic.stage = .text ∧ ∃ place, diagnostic.place = some place ∧
        ((∃ before c rest, Token.HeadAt source.toList before c rest ∧
            Found source before c rest diagnostic ∧ place = .behind before ∧
            Text.isSpace c = false ∧
            ∃ line, (Console.sourceLines source)[place.line - 1]? = some line ∧
              line.toList[place.col - 1]? = some c) ∨
          place = .behind source.toList ∧
            ∃ expected, diagnostic = .ofGrammar ⟨⟨expected, none⟩, place⟩)) ∧
    ∀ place line, diagnostic.place = some place →
      (Console.sourceLines source)[place.line - 1]? = some line →
      place.col - 1 ≤ line.length := by
  obtain hphrase | ⟨message, rfl⟩ := ofText_cases h
  · obtain ⟨place, hstage, hplace, hplaced⟩ := isPlaced_of_ofText hphrase
    refine ⟨.inr ⟨hstage, place, hplace, ?_⟩, ?_⟩
    · cases hplaced with
      | found hhead hfound =>
          exact .inl ⟨_, _, _, hhead, hfound, rfl, hhead.isSpace, Console.line_at_head hhead⟩
      | finish => exact .inr ⟨rfl, _, rfl⟩
    · intro other line hother hline
      rw [hplace] at hother
      cases hother
      cases hplaced with
      | found hhead =>
          obtain ⟨shown, hshown, hc⟩ := Console.line_at_head hhead
          rw [hline] at hshown
          cases hshown
          exact Nat.le_of_lt (List.getElem?_eq_some_iff.mp hc).1
      | finish => exact Nat.le_of_eq (Console.length_line_at_end hline)
  · refine ⟨.inl ⟨rfl, rfl⟩, ?_⟩
    intro place line hplace
    cases hplace

/-- A text over two lines, a comment that ends with a carriage return and a line feed, and
a bracket that nothing opened. -/
def strayBracket : String := "\"a\nb\" ※c\r\n )"

theorem ofText_strayBracket : Node.ofText strayBracket =
    .error (.ofGrammar ⟨⟨.expression, some (.symbol .rightParen)⟩, ⟨3, 2⟩⟩) := by
  have hend : Cursor.readFrom [] ⟨3, 3⟩ = _ := Cursor.readFrom_of_gap rfl
  have hlast : Cursor.readFrom [' ', '※', 'c', '\r', '\n', ' ', ')'] ⟨2, 3⟩ = _ :=
    Cursor.readFrom_of_token rfl rfl hend
  have hread : Cursor.readFrom
      ['"', 'a', '\n', 'b', '"', ' ', '※', 'c', '\r', '\n', ' ', ')'] .start = _ :=
    Cursor.readFrom_of_token rfl rfl hlast
  have hstream : TokenStream.ofText strayBracket = _ := congrArg Prod.fst hread
  rw [Node.ofText, Phrase.ofText, hstream]
  rfl

theorem failures_are_located_strayBracket :
    Node.ofText strayBracket =
      .error (.ofGrammar ⟨⟨.expression, some (.symbol .rightParen)⟩, ⟨3, 2⟩⟩) ∧
    ∃ before c rest, Token.HeadAt strayBracket.toList before c rest ∧
      Position.behind before = ⟨3, 2⟩ ∧
      ∃ line, (Console.sourceLines strayBracket)[2]? = some line ∧
        line.toList[1]? = some c := by
  refine ⟨ofText_strayBracket, ?_⟩
  obtain ⟨⟨hstage, _⟩ | ⟨_, place, hplace, hfound | ⟨hend, _⟩⟩, _⟩ :=
    failures_are_located ofText_strayBracket
  · cases hstage
  · obtain ⟨before, c, rest, hhead, _, hbefore, _, hline⟩ := hfound
    cases hplace
    exact ⟨before, c, rest, hhead, hbefore.symm, hline⟩
  · cases hplace
    exact absurd hend (by decide)

end Diagnostic

end Wabun
