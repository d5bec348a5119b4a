import Wabun.Proofs.Location

/-!
Reading leaves nothing out. The source of the tokens that are read is made of their
lexemes with white space and comments around them, and each lexeme is a written form
of its token: a word in one or more runs, a number with or without a fraction, a text
between quotes with any escapes. Each token has the place of its lexeme, and reading
stops at the place where the source ends. The digits of a number can always be read.
-/

namespace Wabun

namespace Token

/-- White space and comments in front of the rest of a text. A comment can lack the end
of its line at the end of the text only. -/
inductive Trivia (rest : List Char) : List Char → Prop
  | nil : Trivia rest []
  | space {c gap} : Text.isSpace c = true → Trivia rest gap → Trivia rest (c :: gap)
  | comment {body gap} : '\n' ∉ body → Trivia rest gap →
    Trivia rest ('※' :: body ++ '\n' :: gap)
  | lastComment {body} : '\n' ∉ body → rest = [] → Trivia rest ('※' :: body)

/-- What a character stands for behind a backslash. -/
inductive Escapes : Char → Char → Prop
  | newline : Escapes 'n' '\n'
  | tab : Escapes 't' '\t'
  | carriageReturn : Escapes 'r' '\r'
  | itself {c} : c ≠ 'n' → c ≠ 't' → c ≠ 'r' → Escapes c c

/-- What is written between quotes and the text that it stands for. Any character can be
escaped. -/
inductive Quotes (close : Char) : List Char → List Char → Prop
  | nil : Quotes close [] []
  | plain {c body text} : c ≠ close → c ≠ '\\' → Quotes close body text →
    Quotes close (c :: body) (c :: text)
  | escaped {c meant body text} : Escapes c meant → Quotes close body text →
    Quotes close ('\\' :: c :: body) (meant :: text)

/-- What a token can be written as. -/
inductive Lexeme : Kind → List Char → Prop
  | spelled {kind spelling} : Spells kind spelling → Lexeme kind spelling
  | quoted {quote close body text} : closingQuote? quote = some close → Quotes close body text →
    Lexeme (.text (String.ofList text)) (quote :: body ++ [close])

/-- A text, behind some other text, is made of the lexemes of tokens with white space and
comments around them, and the tokens have the places of their lexemes. -/
inductive Transcribes : List Char → List Token → List Char → Prop
  | nil {before gap} : Trivia [] gap → Transcribes before [] gap
  | cons {before gap kind spelling tokens rest} : Trivia (spelling ++ rest) gap →
    Lexeme kind spelling → Transcribes (before ++ gap ++ spelling) tokens rest →
    Transcribes before (⟨kind, .behind (before ++ gap)⟩ :: tokens) (gap ++ spelling ++ rest)

section Gaps

variable {text gap rest : List Char}

/-- A comment can be longer. -/
theorem Trivia.comment_cons {c : Char} (hc : c ≠ '\n') (h : Trivia rest ('※' :: gap)) :
    Trivia rest ('※' :: c :: gap) := by
  have hbody {body : List Char} (hbody : '\n' ∉ body) : '\n' ∉ c :: body := fun hmem =>
    (List.mem_cons.mp hmem).elim (fun heq => hc heq.symm) hbody
  cases h with
  | space hspace _ => exact absurd hspace (by decide)
  | comment hnewline hgap => exact .comment (hbody hnewline) hgap
  | lastComment hnewline hend => exact .lastComment (hbody hnewline) hend

/-- What is split off is white space and comments, if a text begins outside a comment; if it
begins inside one, then together with the mark of the comment. -/
theorem trivia_splitGap (inComment : Bool) (text : List Char) :
    Trivia (splitGap inComment text).2
      ((if inComment then ['※'] else []) ++ (splitGap inComment text).1) := by
  induction text generalizing inComment with
  | nil =>
      cases inComment with
      | false => exact .nil
      | true => exact .lastComment List.not_mem_nil rfl
  | cons c text ih =>
      cases inComment with
      | true =>
          by_cases hc : c = '\n'
          · subst hc
            exact .comment List.not_mem_nil (ih false)
          · have hinside := ih true
            simp only [splitGap, Bool.true_or, if_true, bne_iff_ne.mpr hc]
            exact hinside.comment_cons hc
      | false =>
          by_cases hmark : c = '※'
          · subst hmark
            exact ih true
          · have hflag : (c == '※') = false := beq_eq_false_iff_ne.mpr hmark
            have houtside := ih false
            cases hspace : Text.isSpace c with
            | true =>
                simp only [splitGap, hspace, hflag, Bool.false_or, Bool.true_or, if_true,
                  Bool.false_eq_true, if_false]
                exact .space hspace houtside
            | false =>
                simp only [splitGap, hspace, hflag, Bool.false_or, Bool.false_eq_true, if_false]
                exact .nil

theorem trivia_of_splitGap (h : splitGap false text = (gap, rest)) : Trivia rest gap := by
  have htrivia := trivia_splitGap false text
  rwa [h] at htrivia

end Gaps

section Quoting

variable {close : Char} {text body after : List Char}

theorem escapes_escapedChar (c : Char) : Escapes c (escapedChar c) := by
  unfold escapedChar
  split
  · exact .newline
  · exact .tab
  · exact .carriageReturn
  · next hnewline htab hreturn => exact .itself hnewline htab hreturn

theorem quotes_of_splitQuoted (h : splitQuoted close text = some (body, after)) :
    Quotes close body (unescape body) := by
  fun_induction splitQuoted close text generalizing body after with
  | case1 => cases h
  | case2 rest =>
      cases h
      exact .nil
  | case3 => cases h
  | case4 escaped rest _ ih =>
      obtain ⟨⟨inner, others⟩, hinner, hpair⟩ := Option.map_eq_some_iff.mp h
      cases hpair
      rw [unescape, if_pos rfl]
      exact .escaped (escapes_escapedChar escaped) (ih hinner)
  | case5 c rest hclose hplain ih =>
      obtain ⟨⟨inner, others⟩, hinner, hpair⟩ := Option.map_eq_some_iff.mp h
      cases hpair
      rw [unescape_cons hplain]
      exact .plain hclose hplain (ih hinner)

end Quoting

section Words

theorem splitWord_of_isWordChar {c : Char} (hc : isWordChar c = true) (rest : List Char) :
    (splitWord (c :: rest)).1 = c :: (splitWord rest).1 := by
  rw [splitWord, hc, Bool.true_or, if_pos rfl]

theorem intercalate_run_cons (c : Char) (first : List Char) (runs : List (List Char)) :
    List.intercalate ['.'] ((c :: first) :: runs) =
      c :: List.intercalate ['.'] (first :: runs) := by
  cases runs with
  | nil => rw [List.intercalate_singleton, List.intercalate_singleton]
  | cons second runs =>
      rw [List.intercalate_cons_cons, List.intercalate_cons_cons]
      rfl

theorem IsPath.of_cons {c : Char} {first : List Char} {runs : List (List Char)}
    (hc : Token.isWordChar c = true) (hfirst : ∀ d ∈ first, Token.isWordChar d = true)
    (hruns : ∀ run ∈ runs, run ≠ [] ∧ ∀ d ∈ run, Token.isWordChar d = true) :
    IsPath ((c :: first) :: runs) where
  ne_nil := List.cons_ne_nil _ _
  run_ne_nil := List.forall_mem_cons.mpr
    ⟨List.cons_ne_nil c first, fun run hmem => (hruns run hmem).1⟩
  isWordChar := List.forall_mem_cons.mpr
    ⟨List.forall_mem_cons.mpr ⟨hc, hfirst⟩, fun run hmem => (hruns run hmem).2⟩

/-- What is split off behind a word character goes on with its run, and with further runs
behind dots. -/
theorem exists_runs_of_splitWord (text : List Char) :
    ∃ first runs, (splitWord text).1 = List.intercalate ['.'] (first :: runs) ∧
      (∀ c ∈ text.head?, Token.isWordChar c = true → first ≠ []) ∧
      (∀ d ∈ first, Token.isWordChar d = true) ∧
      ∀ run ∈ runs, run ≠ [] ∧ ∀ d ∈ run, Token.isWordChar d = true := by
  have hnothing : ∀ c ∈ ([] : List Char), Token.isWordChar c = true :=
    fun c hmem => absurd hmem List.not_mem_nil
  induction text with
  | nil =>
      refine ⟨[], [], by simp [splitWord, List.intercalate], ?_, hnothing, ?_⟩
      · intro c hc
        cases hc
      · exact fun run hmem => absurd hmem List.not_mem_nil
  | cons c text ih =>
      obtain ⟨first, runs, hsplit, hne, hfirst, hruns⟩ := ih
      cases hc : Token.isWordChar c with
      | true =>
          refine ⟨c :: first, runs, ?_, fun _ _ _ => List.cons_ne_nil c first, ?_, hruns⟩
          · rw [splitWord_of_isWordChar hc, hsplit, intercalate_run_cons]
          · exact List.forall_mem_cons.mpr ⟨hc, hfirst⟩
      | false =>
          have hhead : ∀ d ∈ (c :: text).head?, Token.isWordChar d = true →
              ([] : List Char) ≠ [] := by
            intro d hd hword
            cases hd
            rw [hc] at hword
            cases hword
          cases hdot : (c == '.' && text.head?.any Token.isWordChar) with
          | true =>
              -- Behind a dot the next run begins with a word character.
              obtain ⟨hpoint, hnext⟩ := Bool.and_eq_true_iff.mp hdot
              have hrun : first ≠ [] := by
                cases hd : text.head? with
                | none =>
                    rw [hd] at hnext
                    cases hnext
                | some d =>
                    rw [hd] at hnext
                    exact hne d hd hnext
              refine ⟨[], first :: runs, ?_, hhead, hnothing, ?_⟩
              · rw [splitWord, hc, hdot, beq_iff_eq.mp hpoint]
                simp [hsplit, List.intercalate]
              · exact List.forall_mem_cons.mpr ⟨⟨hrun, hfirst⟩, hruns⟩
          | false =>
              refine ⟨[], [], ?_, hhead, hnothing, fun run hmem => absurd hmem List.not_mem_nil⟩
              rw [splitWord, hc, hdot]
              simp [List.intercalate]

/-- A word is one or more runs of word characters with dots between them. -/
theorem exists_path_of_splitWord {c : Char} (hc : Token.isWordChar c = true) (rest : List Char) :
    ∃ runs, IsPath runs ∧ (splitWord (c :: rest)).1 = List.intercalate ['.'] runs := by
  obtain ⟨first, runs, hsplit, _, hfirst, hruns⟩ := exists_runs_of_splitWord rest
  refine ⟨(c :: first) :: runs, .of_cons hc hfirst hruns, ?_⟩
  rw [splitWord_of_isWordChar hc, hsplit, intercalate_run_cons]

/-- A path is written for the word that it is, or for a truth value. -/
theorem spells_ofWord {runs : List (List Char)} (hpath : IsPath runs)
    (hdigit : ∀ c ∈ (List.intercalate ['.'] runs).head?, c.isDigit = false) :
    Spells (ofWord (String.ofList (List.intercalate ['.'] runs)))
      (List.intercalate ['.'] runs) := by
  by_cases htruth : ∃ value, String.ofList (List.intercalate ['.'] runs) ∈ Word.truthWords value
  · obtain ⟨value, hmem⟩ := htruth
    have hspells := Spells.truth value hmem
    rwa [String.toList_ofList, ← ofWord_of_mem hmem] at hspells
  · have hword := not_exists.mp htruth
    rw [ofWord_of_not_mem hword]
    exact .word hpath hdigit hword

end Words

section Lexemes

variable {c : Char} {rest spelling after : List Char} {kind : Kind}

theorem spells_of_symbolOfChar? {sign : Symbol} (h : symbolOfChar? c = some sign) :
    Spells (.symbol sign) [c] := by
  unfold symbolOfChar? at h
  split at h <;> cases h
  · exact .symbol .leftBrace
  · exact .symbol .rightBrace
  · exact .symbol .leftParen
  · exact .wideLeftParen
  · exact .symbol .rightParen
  · exact .wideRightParen
  · exact .symbol .comma
  · exact .wideComma
  · exact .symbol (.operator .add)
  · exact .symbol (.operator .sub)
  · exact .symbol (.operator .mul)
  · exact .symbol (.operator .div)

theorem spells_of_comparisonOfChar? {alone : Option Operator} {both : Operator}
    (h : comparisonOfChar? c = some (alone, both)) :
    Spells (.symbol (.operator both)) [c, '='] ∧
      ∀ op, alone = some op → Spells (.symbol (.operator op)) [c] := by
  unfold comparisonOfChar? at h
  split at h <;> cases h
  · exact ⟨.symbol (.operator .eq), fun op hop => by cases hop⟩
  · exact ⟨.symbol (.operator .ne), fun op hop => by cases hop⟩
  · refine ⟨.symbol (.operator .le), fun op hop => ?_⟩
    cases hop
    exact .symbol (.operator .lt)
  · refine ⟨.symbol (.operator .ge), fun op hop => ?_⟩
    cases hop
    exact .symbol (.operator .gt)

/-- The spelling of a token that is read is a written form of it. -/
theorem lexeme_of_scan (h : scan c rest = .token kind spelling after) : Lexeme kind spelling := by
  unfold scan at h
  split at h
  · next hsymbol =>
      cases h
      exact .spelled (spells_of_symbolOfChar? hsymbol)
  · next alone both _ hcomparison =>
      obtain ⟨hboth, halone⟩ := spells_of_comparisonOfChar? hcomparison
      unfold scanComparison at h
      split at h
      · cases h
        exact .spelled hboth
      · cases alone with
        | none => cases h
        | some op =>
            cases h
            exact .spelled (halone op rfl)
  · next close _ _ hquote =>
      unfold scanQuoted at h
      split at h
      · next body others hbody =>
          cases h
          exact .quoted hquote (quotes_of_splitQuoted hbody)
      · cases h
  · split at h
    · next hdigit =>
        obtain ⟨value, hspells, hnumber⟩ := exists_scanNumber hdigit rest
        rw [hnumber] at h
        cases h
        exact .spelled hspells
    · next hdigit =>
        split at h
        · next hword =>
            obtain ⟨runs, hpath, hsplit⟩ := exists_path_of_splitWord hword rest
            have hhead : ∀ d ∈ (List.intercalate ['.'] runs).head?, d.isDigit = false := by
              rw [← hsplit, splitWord_of_isWordChar hword]
              intro d hd
              cases hd
              exact Bool.eq_false_iff.mpr hdigit
            simp only [scanWord, Scan.token.injEq] at h
            rw [← h.1, ← h.2.1, hsplit]
            exact .spelled (spells_ofWord hpath hhead)
        · cases h

end Lexemes

end Token

namespace Cursor

/-- The course of reading from a place: to the end of the text or to a fault, token by token. -/
inductive Reads : List Char → Position → Except (Located LexicalFault) TokenStream → Prop
  | stop {text gap place} : Token.splitGap false text = (gap, []) →
    Reads text place (.ok { tokens := [], stop := place.after gap })
  | fault {text gap c rest cause passed after place} :
    Token.splitGap false text = (gap, c :: rest) →
    Token.scan c rest = .fault cause passed after →
    Reads text place (.error ⟨cause, place.after gap⟩)
  | token {text gap c rest kind spelling after place result} :
    Token.splitGap false text = (gap, c :: rest) →
    Token.scan c rest = .token kind spelling after →
    Reads after ((place.after gap).after spelling) result →
    Reads text place (result.map (TokenStream.push ⟨kind, place.after gap⟩))

theorem reads_readFrom (text : List Char) (place : Position) :
    Reads text place (readFrom text place).1 := by
  induction hlength : text.length using Nat.strongRecOn generalizing text place with
  | ind length ih =>
      cases hsplit : Token.splitGap false text with
      | mk gap others =>
          cases others with
          | nil =>
              rw [readFrom_of_gap hsplit]
              exact .stop hsplit
          | cons c rest =>
              cases hscan : Token.scan c rest with
              | fault cause passed after =>
                  rw [readFrom_of_fault hsplit hscan]
                  exact .fault hsplit hscan
              | token kind spelling after =>
                  have hshorter : after.length < length :=
                    hlength ▸ Token.length_lt_of_scan (congrArg Prod.snd hsplit) hscan
                  have hrest :=
                    ih after.length hshorter after ((place.after gap).after spelling) rfl
                  rw [readFrom_of_token hsplit hscan rfl]
                  exact .token hsplit hscan hrest

/-- A token in front of what is read with success. -/
theorem Reads.push {text gap rest spelling after : List Char} {c : Char} {kind : Token.Kind}
    {place : Position} {stream : TokenStream}
    (hsplit : Token.splitGap false text = (gap, c :: rest))
    (hscan : Token.scan c rest = .token kind spelling after)
    (h : Reads after ((place.after gap).after spelling) (.ok stream)) :
    Reads text place (.ok (stream.push ⟨kind, place.after gap⟩)) :=
  .token hsplit hscan h

/-- The course of reading leads to what is read. -/
theorem Reads.readFrom_eq {text : List Char} {place : Position}
    {result : Except (Located LexicalFault) TokenStream} (h : Reads text place result) :
    (readFrom text place).1 = result := by
  induction h with
  | stop hsplit => rw [readFrom_of_gap hsplit]
  | fault hsplit hscan => rw [readFrom_of_fault hsplit hscan]
  | @token text gap c rest kind spelling after place result hsplit hscan _ ih =>
      rw [readFrom_of_token hsplit hscan rfl, ih]

/-- Reading with success transcribes the text from the place on that it stands at. -/
theorem Reads.transcribes {before text : List Char} {stream : TokenStream}
    (h : Reads text (.behind before) (.ok stream)) :
    Token.Transcribes before stream.tokens text ∧ stream.stop = .behind (before ++ text) := by
  generalize hstart : Position.behind before = place at h
  generalize hresult : Except.ok stream = result at h
  induction h generalizing before stream with
  | stop hsplit =>
      cases hresult
      subst hstart
      have htext := Token.append_of_splitGap hsplit
      rw [List.append_nil] at htext
      subst htext
      exact ⟨.nil (Token.trivia_of_splitGap hsplit), behind_after before _⟩
  | fault => cases hresult
  | @token text gap c rest kind spelling after place result hsplit hscan _ ih =>
      cases result with
      | error located => cases hresult
      | ok later =>
          cases hresult
          subst hstart
          obtain ⟨htokens, hstop⟩ := ih (by rw [behind_after, behind_after]) rfl
          have htrivia := Token.trivia_of_splitGap hsplit
          have hrest := Token.scan_append hscan
          have htext : gap ++ spelling ++ after = text := by
            rw [List.append_assoc, hrest, Token.append_of_splitGap hsplit]
          rw [← hrest] at htrivia
          rw [behind_after, ← htext]
          refine ⟨.cons htrivia (Token.lexeme_of_scan hscan) htokens, ?_⟩
          simpa [TokenStream.push] using hstop

end Cursor

/-- Where a source is read with success it is made of the lexemes of its tokens, with white
space and comments around them; the tokens have the places of their lexemes, and reading stops
at the end of the source. There is no source with a number that cannot be read. -/
theorem TokenStream.ofText_transcribes (source : String) :
    (∀ stream, TokenStream.ofText source = .ok stream →
      Token.Transcribes [] stream.tokens source.toList ∧
      stream.stop = .behind source.toList) ∧
    ∀ place, TokenStream.ofText source ≠ .error ⟨.invalidNumber, place⟩ := by
  constructor
  · intro stream h
    have hreads := Cursor.reads_readFrom source.toList .start
    rw [show (Cursor.readFrom source.toList .start).1 = .ok stream from h] at hreads
    exact hreads.transcribes
  · intro place h
    have hplaced := Cursor.placedIn_ofText source
    rw [h] at hplaced
    cases hplaced with
    | fault _ hcause => cases hcause

/-- A text that goes over two lines, a number, a bracket, and a comment at the end. -/
def Token.linesAndEscapes : List Char :=
  ['「', '甲', '\\', 'n', '\n', '乙', '」', ' ', '1', '.', '5', '\n', '(', '※', '註']

theorem TokenStream.ofText_transcribes_linesAndEscapes :
    ∃ stream, TokenStream.ofText (String.ofList Token.linesAndEscapes) = .ok stream ∧
      stream.tokens.map Token.kind = [.text "甲\n\n乙", .number 1.5, .symbol .leftParen] ∧
      stream.tokens.map Token.place = [⟨1, 1⟩, ⟨2, 4⟩, ⟨3, 1⟩] ∧ stream.stop = ⟨3, 4⟩ ∧
      Token.Transcribes [] stream.tokens Token.linesAndEscapes := by
  have hstop (place : Position) :
      Cursor.Reads ['※', '註'] place (.ok { tokens := [], stop := place.after ['※', '註'] }) :=
    .stop rfl
  have hbracket (place : Position) : Cursor.Reads ['\n', '(', '※', '註'] place
      (.ok {
        tokens := [⟨.symbol .leftParen, place.after ['\n']⟩]
        stop := place.after ['\n', '(', '※', '註'] }) :=
    Cursor.Reads.push
      (show Token.splitGap false ['\n', '(', '※', '註'] = (['\n'], ['(', '※', '註']) from rfl)
      (show Token.scan '(' ['※', '註'] = .token (.symbol .leftParen) ['('] ['※', '註'] from rfl)
      (hstop _)
  have hnumber := Cursor.Reads.push
    (show Token.splitGap false [' ', '1', '.', '5', '\n', '(', '※', '註'] =
      ([' '], ['1', '.', '5', '\n', '(', '※', '註']) from rfl)
    (show Token.scan '1' ['.', '5', '\n', '(', '※', '註'] =
      .token (.number 1.5) ['1', '.', '5'] ['\n', '(', '※', '註'] from rfl)
    (hbracket (Position.after ⟨1, 1⟩
      ['「', '甲', '\\', 'n', '\n', '乙', '」', ' ', '1', '.', '5']))
  have htext : Cursor.Reads Token.linesAndEscapes .start _ := Cursor.Reads.push
    (show Token.splitGap false Token.linesAndEscapes = ([], Token.linesAndEscapes) from rfl)
    (show Token.scan '「' Token.linesAndEscapes.tail =
      .token (.text "甲\n\n乙")
        ['「', '甲', '\\', 'n', '\n', '乙', '」']
        [' ', '1', '.', '5', '\n', '(', '※', '註'] from rfl) hnumber
  have hread := htext.readFrom_eq
  rw [← String.toList_ofList (l := Token.linesAndEscapes)] at hread
  have htranscribes :=
    ((TokenStream.ofText_transcribes (String.ofList Token.linesAndEscapes)).1 _ hread).1
  rw [String.toList_ofList] at htranscribes
  exact ⟨_, hread, rfl, rfl, rfl, htranscribes⟩

end Wabun
