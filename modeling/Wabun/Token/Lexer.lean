import Wabun.Diagnostic
import Wabun.Text.Alphabetic
import Wabun.Text.Numeric
import Wabun.Text.Space

/-!
Reading tokens from a source text. The text is split into gaps (white space
and comments) and spellings, one spelling for each token, and nothing else:
`scan` names the spelling of the token at hand and what follows it, and a
place in the text is computed from the characters before it.
-/

namespace Wabun.Token

/-- The characters of names and key words. -/
def isWordChar (c : Char) : Bool :=
  Text.isAlphabetic c || Text.isNumeric c || c == '_'

/-- Splits off the longest gap, which is white space and comments. A comment
goes from `※` through the end of its line; the flag says whether the text
begins inside one. -/
def splitGap (inComment : Bool) : List Char → List Char × List Char
  | [] => ([], [])
  | c :: rest =>
    if inComment || Text.isSpace c || c == '※' then
      let (gap, after) := splitGap (if inComment then c != '\n' else c == '※') rest
      (c :: gap, after)
    else
      ([], c :: rest)

/-- Splits off the longest run of word characters and single dots between word
characters. -/
def splitWord : List Char → List Char × List Char
  | [] => ([], [])
  | c :: rest =>
    if isWordChar c || (c == '.' && rest.head?.any isWordChar) then
      let (word, after) := splitWord rest
      (c :: word, after)
    else
      ([], c :: rest)

/-- Splits off the body of a quoted text, up to the closing quote, and drops
that quote. A backslash keeps the character after it from closing the text. -/
def splitQuoted (close : Char) : List Char → Option (List Char × List Char)
  | [] => none
  | c :: rest =>
    if c = close then
      some ([], rest)
    else if c = '\\' then
      match rest with
      | [] => none
      | escaped :: rest =>
        (splitQuoted close rest).map fun (body, after) => (c :: escaped :: body, after)
    else
      (splitQuoted close rest).map fun (body, after) => (c :: body, after)

/-- The character that an escaped one stands for. -/
def escapedChar : Char → Char
  | 'n' => '\n'
  | 't' => '\t'
  | 'r' => '\r'
  | c => c

/-- The text that the body of a quoted text stands for. -/
def unescape : List Char → List Char
  | [] => []
  | [c] => [c]
  | c :: d :: rest => if c = '\\' then escapedChar d :: unescape rest else c :: unescape (d :: rest)

/-- The fraction digits after a point, if a point with a digit stands at the
head of the text. -/
def splitFraction : List Char → List Char × List Char
  | '.' :: d :: rest =>
    if d.isDigit then ((d :: rest).takeWhile Char.isDigit, (d :: rest).dropWhile Char.isDigit)
    else ([], '.' :: d :: rest)
  | rest => ([], rest)

/-- Splits off the digits at the head of a text, with the point and the fraction
digits after them if there are any. -/
def splitNumber (text : List Char) : List Char × List Char :=
  let (fraction, after) := splitFraction (text.dropWhile Char.isDigit)
  (text.takeWhile Char.isDigit ++ (if fraction.isEmpty then [] else '.' :: fraction), after)

def ofWord (word : String) : Kind :=
  if Word.truthWords true |>.contains word then .truth true
  else if Word.truthWords false |>.contains word then .truth false
  else .word word

/-- The symbols of one character. Brackets and commas have a second, wide form. -/
def symbolOfChar? : Char → Option Symbol
  | '{' => some .leftBrace
  | '}' => some .rightBrace
  | '(' | '（' => some .leftParen
  | ')' | '）' => some .rightParen
  | ',' | '、' => some .comma
  | '+' => some (.operator .add)
  | '-' => some (.operator .sub)
  | '*' => some (.operator .mul)
  | '/' => some (.operator .div)
  | _ => none

/-- The operators that a character forms alone, if it does, and with a following `=`. -/
def comparisonOfChar? : Char → Option (Option Operator × Operator)
  | '=' => some (none, .eq)
  | '!' => some (none, .ne)
  | '<' => some (some .lt, .le)
  | '>' => some (some .gt, .ge)
  | _ => none

/-- The quote that closes a text opened by this character. -/
def closingQuote? : Char → Option Char
  | '"' => some '"'
  | '「' => some '」'
  | _ => none

/-- What stands at the head of a text: a token with its spelling, or a fault
with the characters that were read before it was found. -/
inductive Scan where
  | token (kind : Kind) (spelling rest : List Char)
  | fault (cause : LexicalFault) (passed rest : List Char)

def scanComparison (c : Char) (alone : Option Operator) (both : Operator) : List Char → Scan
  | '=' :: rest => .token (.symbol (.operator both)) [c, '='] rest
  | rest =>
    match alone with
    | some op => .token (.symbol (.operator op)) [c] rest
    | none => .fault (.loneCharacter c) [c] rest

def scanQuoted (quote close : Char) (rest : List Char) : Scan :=
  match splitQuoted close rest with
  | some (body, after) =>
    .token (.text (String.ofList (unescape body))) (quote :: body ++ [close]) after
  | none => .fault .unterminatedText (quote :: rest) []

def scanNumber (text : List Char) : Scan :=
  let (spelling, after) := splitNumber text
  match Decimal.ofText? spelling with
  | some value => .token (.number value) spelling after
  | none => .fault .invalidNumber spelling after

def scanWord (text : List Char) : Scan :=
  let (word, after) := splitWord text
  .token (ofWord (String.ofList word)) word after

/-- The token at the head of a text that does not begin with a gap. -/
def scan (c : Char) (rest : List Char) : Scan :=
  match symbolOfChar? c, comparisonOfChar? c, closingQuote? c with
  | some symbol, _, _ => .token (.symbol symbol) [c] rest
  | none, some (alone, both), _ => scanComparison c alone both rest
  | none, none, some close => scanQuoted c close rest
  | none, none, none =>
    if c.isDigit then scanNumber (c :: rest)
    else if isWordChar c then scanWord (c :: rest)
    else .fault (.strayCharacter c) [] (c :: rest)

theorem splitGap_append (inComment : Bool) (text : List Char) :
    (splitGap inComment text).1 ++ (splitGap inComment text).2 = text := by
  induction text generalizing inComment with
  | nil => rfl
  | cons c rest ih =>
    simp only [splitGap]
    split
    · simp [ih]
    · rfl

theorem splitWord_append (text : List Char) : (splitWord text).1 ++ (splitWord text).2 = text := by
  induction text with
  | nil => rfl
  | cons c rest ih =>
    simp only [splitWord]
    split
    · simp [ih]
    · rfl

theorem splitQuoted_append {close : Char} {text body after : List Char}
    (h : splitQuoted close text = some (body, after)) : body ++ close :: after = text := by
  fun_induction splitQuoted close text generalizing body after with
  | case1 => simp at h
  | case2 rest =>
    simp only [Option.some.injEq, Prod.mk.injEq] at h
    simp [← h.1, ← h.2]
  | case3 => simp at h
  | case4 hne escaped rest ih =>
    obtain ⟨⟨b, a⟩, hb, hp⟩ := Option.map_eq_some_iff.1 h
    simp only [Prod.mk.injEq] at hp
    simp [← hp.1, ← hp.2, ih hb]
  | case5 c rest hne hb ih =>
    obtain ⟨⟨b, a⟩, hs, hp⟩ := Option.map_eq_some_iff.1 h
    simp only [Prod.mk.injEq] at hp
    simp [← hp.1, ← hp.2, ih hs]

theorem splitFraction_append (text : List Char) :
    (if (splitFraction text).1.isEmpty then [] else '.' :: (splitFraction text).1) ++
      (splitFraction text).2 = text := by
  unfold splitFraction
  split
  · split
    · simp_all
    · simp
  · simp

theorem splitNumber_append (text : List Char) :
    (splitNumber text).1 ++ (splitNumber text).2 = text := by
  simp only [splitNumber, List.append_assoc, splitFraction_append, List.takeWhile_append_dropWhile]

theorem splitNumber_of_scanNumber {text : List Char} {kind : Kind} {spelling after : List Char}
    (h : scanNumber text = .token kind spelling after) : splitNumber text = (spelling, after) := by
  unfold scanNumber at h
  split at h
  next hsplit =>
    split at h
    · simp only [Scan.token.injEq] at h
      rw [hsplit, ← h.2.1, ← h.2.2]
    · simp at h

/-- The spelling of a token is what its reading consumes. -/
theorem scan_append {c : Char} {rest : List Char} {kind : Kind} {spelling after : List Char}
    (h : scan c rest = .token kind spelling after) : spelling ++ after = c :: rest := by
  unfold scan at h
  split at h
  · simp only [Scan.token.injEq] at h
    simp [← h.2.1, ← h.2.2]
  · unfold scanComparison at h
    split at h
    · simp only [Scan.token.injEq] at h
      simp [← h.2.1, ← h.2.2]
    · split at h
      · simp only [Scan.token.injEq] at h
        simp [← h.2.1, ← h.2.2]
      · simp at h
  · unfold scanQuoted at h
    split at h
    · next hq =>
      simp only [Scan.token.injEq] at h
      simp [← h.2.1, ← h.2.2, splitQuoted_append hq]
    · simp at h
  · split at h
    · have happend := splitNumber_append (c :: rest)
      rwa [splitNumber_of_scanNumber h] at happend
    · split at h
      · simp only [scanWord, Scan.token.injEq] at h
        rw [← h.2.1, ← h.2.2, splitWord_append]
      · simp at h

theorem spelling_ne_nil {c : Char} {rest : List Char} {kind : Kind} {spelling after : List Char}
    (h : scan c rest = .token kind spelling after) : spelling ≠ [] := by
  unfold scan at h
  split at h
  · simp only [Scan.token.injEq] at h
    simp [← h.2.1]
  · unfold scanComparison at h
    split at h
    · simp only [Scan.token.injEq] at h
      simp [← h.2.1]
    · split at h
      · simp only [Scan.token.injEq] at h
        simp [← h.2.1]
      · simp at h
  · unfold scanQuoted at h
    split at h
    · simp only [Scan.token.injEq] at h
      simp [← h.2.1]
    · simp at h
  · split at h
    · next hd =>
      have hspelling : (splitNumber (c :: rest)).1 = spelling := by
        rw [splitNumber_of_scanNumber h]
      simp [← hspelling, splitNumber, hd]
    · split at h
      · next hw =>
        simp only [scanWord, Scan.token.injEq] at h
        simp [← h.2.1, splitWord, hw]
      · simp at h

theorem length_lt_of_scan {text : List Char} {c : Char} {rest : List Char} {kind : Kind}
    {spelling after : List Char} (hgap : (splitGap false text).2 = c :: rest)
    (h : scan c rest = .token kind spelling after) : after.length < text.length := by
  have hne := List.length_pos_iff.2 (spelling_ne_nil h)
  have happ := congrArg List.length (scan_append h)
  have htext := congrArg List.length (splitGap_append false text)
  simp only [List.length_append, List.length_cons, hgap] at happ htext
  omega

end Wabun.Token

namespace Wabun

/-- A text that is being read: what is left of it, and the place reached. -/
structure Cursor where
  rest : List Char
  place : Position

namespace Cursor

def ofText (source : String) : Cursor := ⟨source.toList, .start⟩

def readFrom (text : List Char) (place : Position) :
    Except (Located LexicalFault) TokenStream × Cursor :=
  let here := place.after (Token.splitGap false text).1
  match _hgap : (Token.splitGap false text).2 with
  | [] => (.ok { tokens := [], stop := here }, ⟨[], here⟩)
  | c :: rest =>
    match _hscan : Token.scan c rest with
    | .token kind spelling after =>
      match readFrom after (here.after spelling) with
      | (.ok stream, cursor) =>
        (.ok { stream with tokens := ⟨kind, here⟩ :: stream.tokens }, cursor)
      | (.error located, cursor) => (.error located, cursor)
    | .fault cause passed after => (.error ⟨cause, here⟩, ⟨after, here.after passed⟩)
termination_by text.length
decreasing_by exact Token.length_lt_of_scan _hgap _hscan

/-- Reads all the tokens that are left. The second result is where reading
stopped, from which it can be taken up again, also after a fault. -/
def tokenize (cursor : Cursor) : Except (Located LexicalFault) TokenStream × Cursor :=
  readFrom cursor.rest cursor.place

end Cursor

/-- The tokens of a source text. -/
def TokenStream.ofText (source : String) : Except (Located LexicalFault) TokenStream :=
  (Cursor.ofText source).tokenize.1

end Wabun
