import Wabun.Proofs.Transcription

/-!
Lines can be read apart. If a text can be read, then what follows it on a new line is
read as if it stood alone: the tokens are those of the first text and then those of the
second, only further down, and a fault in the second text is found there as well. For
this a line feed has to end whatever the first text ends with, a word, a number, an
operator or a comment, just as the end of the text does, and reading must not look at
the place where it is.
-/

namespace Wabun

/-- The same column so many lines further down. -/
def Position.down (lines : Nat) (place : Position) : Position :=
  ⟨place.line + lines, place.col⟩

def Token.down (lines : Nat) (token : Token) : Token :=
  ⟨token.kind, token.place.down lines⟩

def TokenStream.down (lines : Nat) (stream : TokenStream) : TokenStream :=
  { stream with
    tokens := stream.tokens.map (Token.down lines)
    stop := stream.stop.down lines }

/-- A fault so many lines further down. -/
def Located.down {α : Type} (lines : Nat) (located : Located α) : Located α :=
  ⟨located.fault, located.place.down lines⟩

/-- The tokens of a text in front of those of the text that follows. -/
def TokenStream.append (first second : TokenStream) : TokenStream :=
  { second with tokens := first.tokens ++ second.tokens }

namespace Position

theorem down_after (lines : Nat) (place : Position) (text : List Char) :
    (place.down lines).after text = (place.after text).down lines := by
  induction text generalizing place with
  | nil => rfl
  | cons c text ih =>
      have hnext : (place.down lines).next c = (place.next c).down lines := by
        unfold next
        split
        · simp only [down, Position.mk.injEq, and_true]
          omega
        · rfl
      have hcons (start : Position) : start.after (c :: text) = (start.next c).after text := rfl
      rw [hcons, hcons, hnext, ih]

end Position

namespace Token

variable {text gap rest after spelling : List Char} {c : Char} {kind : Kind}

section Suffixes

variable {suffix : List Char}

/-- A gap ends before its last character, so that what follows is left as it is. -/
theorem splitGap_append_of_cons {inComment : Bool}
    (h : splitGap inComment text = (gap, c :: rest)) (suffix : List Char) :
    splitGap inComment (text ++ suffix) = (gap, c :: rest ++ suffix) := by
  induction text generalizing inComment gap with
  | nil => simp [splitGap] at h
  | cons d text ih =>
      rw [splitGap] at h
      rw [List.cons_append, splitGap]
      split at h
      · next hgap =>
          obtain ⟨rfl, hrest⟩ := Prod.mk.inj h
          rw [if_pos hgap, ih (Prod.ext rfl hrest)]
      · next hgap =>
          obtain ⟨rfl, hrest⟩ := Prod.mk.inj h
          rw [if_neg hgap, ← hrest, List.cons_append]

/-- A line feed ends a comment, and is white space outside of comments. -/
theorem splitGap_newline {inComment : Bool} (h : splitGap inComment text = (gap, []))
    (later : List Char) :
    splitGap inComment (text ++ '\n' :: later) =
      (gap ++ '\n' :: (splitGap false later).1, (splitGap false later).2) := by
  induction text generalizing inComment gap with
  | nil =>
      cases h
      cases inComment <;> rfl
  | cons d text ih =>
      rw [splitGap] at h
      rw [List.cons_append, splitGap]
      split at h
      · next hgap =>
          obtain ⟨rfl, hrest⟩ := Prod.mk.inj h
          rw [if_pos hgap, ih (Prod.ext rfl hrest)]
          rfl
      · cases h

theorem splitQuoted_append_suffix {close : Char} {body : List Char}
    (h : splitQuoted close text = some (body, after)) (suffix : List Char) :
    splitQuoted close (text ++ suffix) = some (body, after ++ suffix) := by
  fun_induction splitQuoted close text generalizing body after with
  | case1 => cases h
  | case2 rest =>
      cases h
      exact splitQuoted_close close (rest ++ suffix)
  | case3 => cases h
  | case4 escaped rest hne ih =>
      obtain ⟨⟨inner, others⟩, hinner, hpair⟩ := Option.map_eq_some_iff.mp h
      cases hpair
      rw [List.cons_append, List.cons_append, splitQuoted, if_neg hne, if_pos rfl]
      dsimp only
      rw [ih hinner]
      rfl
  | case5 d rest hclose hplain ih =>
      obtain ⟨⟨inner, others⟩, hinner, hpair⟩ := Option.map_eq_some_iff.mp h
      cases hpair
      rw [List.cons_append, splitQuoted.eq_def]
      dsimp only
      rw [if_neg hclose, if_neg hplain, ih hinner]
      rfl

theorem digits_append_suffix (hsuffix : AtGap suffix) (text : List Char) :
    (text ++ suffix).takeWhile Char.isDigit = text.takeWhile Char.isDigit ∧
      (text ++ suffix).dropWhile Char.isDigit = text.dropWhile Char.isDigit ++ suffix := by
  induction text with
  | nil =>
      have hnone := takeWhile_digits (fun d hd => absurd hd List.not_mem_nil) hsuffix.head_isDigit
      exact hnone
  | cons d text ih =>
      cases hd : d.isDigit with
      | true => simp [hd, ih]
      | false => simp [hd]

theorem splitFraction_append_suffix (hsuffix : AtGap suffix) (text : List Char) :
    splitFraction (text ++ suffix) =
      ((splitFraction text).1, (splitFraction text).2 ++ suffix) := by
  cases text with
  | nil => exact splitFraction_of_atGap hsuffix
  | cons d text =>
      by_cases hdot : d = '.'
      · subst hdot
        cases text with
        | nil =>
            cases suffix with
            | nil => rfl
            | cons e suffix =>
                have hdigit : e.isDigit = false := hsuffix.head_isDigit e rfl
                rw [List.cons_append, List.nil_append, splitFraction, hdigit]
                rfl
        | cons e text =>
            obtain ⟨htake, hdrop⟩ := digits_append_suffix hsuffix (e :: text)
            rw [List.cons_append, List.cons_append, splitFraction, splitFraction]
            rw [List.cons_append] at htake hdrop
            split
            · rw [htake, hdrop]
            · rfl
      · have hnone (others : List Char) : splitFraction (d :: others) = ([], d :: others) := by
          unfold splitFraction
          split
          · next heq => exact absurd (List.cons.inj heq).1 hdot
          · rfl
        rw [List.cons_append, hnone, hnone, List.cons_append]

theorem splitNumber_append_suffix (hsuffix : AtGap suffix) (text : List Char) :
    splitNumber (text ++ suffix) = ((splitNumber text).1, (splitNumber text).2 ++ suffix) := by
  obtain ⟨htake, hdrop⟩ := digits_append_suffix hsuffix text
  unfold splitNumber
  rw [htake, hdrop, splitFraction_append_suffix hsuffix]

theorem splitWord_append_suffix (hsuffix : AtGap suffix) (text : List Char) :
    splitWord (text ++ suffix) = ((splitWord text).1, (splitWord text).2 ++ suffix) := by
  induction text with
  | nil => exact splitWord_of_atGap hsuffix
  | cons d text ih =>
      -- At the end of the text no word character follows a dot, and in a gap neither.
      have hnext : (text ++ suffix).head?.any isWordChar = text.head?.any isWordChar := by
        cases text with
        | nil =>
            cases suffix with
            | nil => rfl
            | cons e suffix => exact isWordChar_of_startsGap (hsuffix e rfl)
        | cons e text => rfl
      rw [List.cons_append, splitWord, splitWord, hnext, ih]
      split
      · rfl
      · rfl

theorem scanComparison_append_suffix {alone : Option Operator} {both : Operator}
    (hsuffix : AtGap suffix) (h : scanComparison c alone both rest = .token kind spelling after) :
    scanComparison c alone both (rest ++ suffix) = .token kind spelling (after ++ suffix) := by
  unfold scanComparison at h
  split at h
  · cases h
    rfl
  · next hnext =>
      cases alone with
      | none => cases h
      | some op =>
          cases h
          unfold scanComparison
          split
          · next others heq =>
              cases rest with
              | nil =>
                  rw [List.nil_append] at heq
                  subst heq
                  exact absurd rfl (ne_of_startsGap (hsuffix '=' rfl) (by decide))
              | cons d rest =>
                  rw [List.cons_append] at heq
                  obtain ⟨rfl, _⟩ := List.cons.inj heq
                  exact absurd rfl (hnext rest)
          · rfl

theorem scanNumber_append_suffix (hsuffix : AtGap suffix)
    (h : scanNumber text = .token kind spelling after) :
    scanNumber (text ++ suffix) = .token kind spelling (after ++ suffix) := by
  have hsplit := splitNumber_of_scanNumber h
  unfold scanNumber at h ⊢
  rw [splitNumber_append_suffix hsuffix]
  rw [hsplit] at h ⊢
  dsimp only at h ⊢
  cases hvalue : Decimal.ofText? spelling with
  | none =>
      rw [hvalue] at h
      cases h
  | some value =>
      rw [hvalue] at h
      cases h
      rfl

/-- A token that ends with the text is read as it is if a gap follows instead. -/
theorem scan_append_suffix (hsuffix : AtGap suffix)
    (h : scan c rest = .token kind spelling after) :
    scan c (rest ++ suffix) = .token kind spelling (after ++ suffix) := by
  unfold scan at h
  split at h
  · next hsymbol =>
      cases h
      rw [scan, hsymbol]
  · next alone both hsymbol hcomparison =>
      rw [scan, hsymbol, hcomparison]
      exact scanComparison_append_suffix hsuffix h
  · next close hsymbol hcomparison hquote =>
      rw [scan, hsymbol, hcomparison, hquote]
      dsimp only
      unfold scanQuoted at h ⊢
      split at h
      · next hbody =>
          cases h
          rw [splitQuoted_append_suffix hbody]
      · cases h
  · split at h
    · next hdigit =>
        rw [scan_of_isDigit hdigit, ← List.cons_append]
        exact scanNumber_append_suffix hsuffix h
    · next hdigit =>
        split at h
        · next hword =>
            simp only [scanWord, Scan.token.injEq] at h
            obtain ⟨rfl, rfl, rfl⟩ := h
            rw [scan_of_isWordChar hword (Bool.eq_false_iff.mpr hdigit), ← List.cons_append,
              scanWord, splitWord_append_suffix hsuffix]
        · cases h

end Suffixes

end Token

/-- What is read, so many lines further down. -/
def TokenStream.resultDown (lines : Nat) (result : Except (Located LexicalFault) TokenStream) :
    Except (Located LexicalFault) TokenStream :=
  (result.map (TokenStream.down lines)).mapError (Located.down lines)

namespace Cursor

variable {text later gap : List Char} {place : Position}
  {result : Except (Located LexicalFault) TokenStream}

/-- Reading does not depend on the line where it begins. -/
theorem Reads.down (lines : Nat) (h : Reads text place result) :
    Reads text (place.down lines) (TokenStream.resultDown lines result) := by
  induction h with
  | @stop text gap place hsplit =>
      have hstop : Reads text (place.down lines) _ := .stop hsplit
      rwa [Position.down_after] at hstop
  | @fault text gap c rest cause passed after place hsplit hscan =>
      have hfault : Reads text (place.down lines) _ := .fault hsplit hscan
      rwa [Position.down_after] at hfault
  | @token text gap c rest kind spelling after place result hsplit hscan _ ih =>
      rw [← Position.down_after, ← Position.down_after] at ih
      have htoken := Reads.token hsplit hscan ih
      rw [Position.down_after] at htoken
      cases result <;> exact htoken

/-- On the line behind a gap reading goes on as if it began there. -/
theorem Reads.of_newline (hsplit : Token.splitGap false text = (gap, []))
    (h : Reads later ⟨(place.after gap).line + 1, 1⟩ result) :
    Reads (text ++ '\n' :: later) place result := by
  have hplace (others : List Char) : place.after (gap ++ '\n' :: others) =
      (⟨(place.after gap).line + 1, 1⟩ : Position).after others := by
    rw [after_append]
    rfl
  have hwhole := Token.splitGap_newline hsplit later
  cases h with
  | stop hlater =>
      rw [hlater] at hwhole
      rw [← hplace]
      exact .stop hwhole
  | fault hlater hscan =>
      rw [hlater] at hwhole
      rw [← hplace]
      exact .fault hwhole hscan
  | token hlater hscan hrest =>
      rw [hlater] at hwhole
      rw [← hplace] at hrest ⊢
      exact .token hwhole hscan hrest

/-- A text that is read with success is read in the same way with more lines behind it. -/
theorem Reads.append_line {first : TokenStream} (h : Reads text place (.ok first))
    (hlater : Reads later ⟨first.stop.line + 1, 1⟩ result) :
    Reads (text ++ '\n' :: later) place (result.map first.append) := by
  have hnewline : Token.AtGap ('\n' :: later) := by
    intro c hc
    cases hc
    rfl
  generalize hfirst : Except.ok first = start at h
  induction h generalizing first with
  | stop hsplit =>
      cases hfirst
      have hread := Reads.of_newline hsplit hlater
      cases result <;> exact hread
  | fault => cases hfirst
  | @token text gap c rest kind spelling after place start hsplit hscan _ ih =>
      cases start with
      | error located => cases hfirst
      | ok others =>
          cases hfirst
          have hbehind : Reads later ⟨others.stop.line + 1, 1⟩ result := hlater
          have hrest := ih hbehind rfl
          have htoken := Reads.token
            (Token.splitGap_append_of_cons hsplit ('\n' :: later))
            (Token.scan_append_suffix hnewline hscan) hrest
          cases result <;> exact htoken

end Cursor

/-- If a text can be read, then on a new line behind it every other text is read as it is
alone, only further down: its tokens stand behind those of the first text, or its fault is
the fault of the whole. -/
theorem TokenStream.ofText_append_line (source other : String) {first : TokenStream}
    (h : TokenStream.ofText source = .ok first) :
    (∀ second, TokenStream.ofText other = .ok second →
      TokenStream.ofText (source ++ "\n" ++ other) =
        .ok { second with
          tokens := first.tokens ++ second.tokens.map (Token.down (source.toList.count '\n' + 1))
          stop := second.stop.down (source.toList.count '\n' + 1) }) ∧
    ∀ located, TokenStream.ofText other = .error located →
      TokenStream.ofText (source ++ "\n" ++ other) =
        .error ⟨located.fault, located.place.down (source.toList.count '\n' + 1)⟩ := by
  have hfirst : Cursor.Reads source.toList (.behind []) _ :=
    Cursor.reads_readFrom source.toList .start
  rw [show (Cursor.readFrom source.toList .start).1 = .ok first from h] at hfirst
  have hstop : first.stop.line = source.toList.count '\n' + 1 := by
    rw [hfirst.transcribes.2]
    exact Nat.add_comm _ _
  have hother := (Cursor.reads_readFrom other.toList .start).down (source.toList.count '\n' + 1)
  have hstart : Position.start.down (source.toList.count '\n' + 1) =
      ⟨first.stop.line + 1, 1⟩ := by
    rw [hstop, Position.down, Position.start, Nat.add_comm]
  rw [hstart] at hother
  have hwhole := (hfirst.append_line hother).readFrom_eq
  have htext : (source ++ "\n" ++ other).toList = source.toList ++ '\n' :: other.toList := by
    simp
  rw [← htext] at hwhole
  constructor
  · intro second hsecond
    rw [show (Cursor.readFrom other.toList .start).1 = .ok second from hsecond] at hwhole
    exact hwhole
  · intro located hlocated
    rw [show (Cursor.readFrom other.toList .start).1 = .error located from hlocated] at hwhole
    exact hwhole

/-- Two lines, with an operator that could be continued and a comment at the end. -/
def Token.operatorAndComment : List Char :=
  ['1', '\n', '<', '※', '註']

-- The first text ends in a comment, and the second one begins with what could continue the
-- operator before it.
theorem TokenStream.ofText_append_line_operatorAndComment :
    ∃ first, TokenStream.ofText (String.ofList Token.operatorAndComment) = .ok first ∧
      first.tokens.map Token.place = [⟨1, 1⟩, ⟨2, 1⟩] ∧
      TokenStream.ofText (String.ofList Token.operatorAndComment ++ "\n" ++ " (") =
        .ok { tokens := first.tokens ++ [⟨.symbol .leftParen, ⟨3, 2⟩⟩], stop := ⟨3, 3⟩ } ∧
      TokenStream.ofText (String.ofList Token.operatorAndComment ++ "\n" ++ "=") =
        .error ⟨.loneCharacter '=', ⟨3, 1⟩⟩ := by
  have hstop (place : Position) :
      Cursor.Reads ['※', '註'] place (.ok { tokens := [], stop := place.after ['※', '註'] }) :=
    .stop rfl
  have hoperator := Cursor.Reads.push
    (show Token.splitGap false ['\n', '<', '※', '註'] = (['\n'], ['<', '※', '註']) from rfl)
    (show Token.scan '<' ['※', '註'] =
      .token (.symbol (.operator .lt)) ['<'] ['※', '註'] from rfl)
    (hstop (Position.after ⟨1, 2⟩ ['\n', '<']))
  have hnumber : Cursor.Reads Token.operatorAndComment .start _ := Cursor.Reads.push
    (show Token.splitGap false Token.operatorAndComment = ([], Token.operatorAndComment) from rfl)
    (show Token.scan '1' ['\n', '<', '※', '註'] =
      .token (.number (Float.ofScientific 1 true 0)) ['1'] ['\n', '<', '※', '註'] from rfl)
    hoperator
  have hfirst := hnumber.readFrom_eq
  rw [← String.toList_ofList (l := Token.operatorAndComment)] at hfirst
  have hbracket : TokenStream.ofText " (" =
      .ok { tokens := [⟨.symbol .leftParen, ⟨1, 2⟩⟩], stop := ⟨1, 3⟩ } :=
    (Cursor.Reads.push (show Token.splitGap false [' ', '('] = ([' '], ['(']) from rfl)
      (show Token.scan '(' [] = .token (.symbol .leftParen) ['('] [] from rfl)
      (.stop (show Token.splitGap false [] = ([], []) from rfl))).readFrom_eq
  have hlone : TokenStream.ofText "=" = .error ⟨.loneCharacter '=', ⟨1, 1⟩⟩ :=
    (Cursor.Reads.fault (show Token.splitGap false ['='] = ([], ['=']) from rfl)
      (show Token.scan '=' [] = .fault (.loneCharacter '=') ['='] [] from rfl)).readFrom_eq
  have hcount : (String.ofList Token.operatorAndComment).toList.count '\n' = 1 := by
    rw [String.toList_ofList]
    rfl
  have hbehind :=
    TokenStream.ofText_append_line (String.ofList Token.operatorAndComment) " (" hfirst
  have hfault :=
    TokenStream.ofText_append_line (String.ofList Token.operatorAndComment) "=" hfirst
  rw [hcount] at hbehind hfault
  exact ⟨_, hfirst, rfl, hbehind.1 _ hbracket, hfault.2 _ hlone⟩

end Wabun
