import Wabun.Proofs.FirstToken
import Wabun.Proofs.Reading

/-!
What it means that a reading accepts a list of tokens: it takes exactly these
off every stream that begins with them, provided that what follows them cannot
be taken for a continuation. The property passes through every way in which
readings are put together.
-/

namespace Wabun

open Token (Kind)

namespace TokenStream

theorem atKeyword_eq (stream : TokenStream) (k : Keyword) :
    stream.atKeyword k = stream.kinds.head?.any (·.isWord k) := by
  rw [atKeyword, next?_eq_head?]

theorem atSymbol_eq (stream : TokenStream) (s : Symbol) :
    stream.atSymbol s = stream.kinds.head?.any (·.isSymbol s) := by
  rw [atSymbol, next?_eq_head?]

theorem atKeyword_keyword {stream : TokenStream} {k : Keyword} {rest : List Kind}
    (h : stream.kinds = .keyword k :: rest) (other : Keyword) :
    stream.atKeyword other = decide (k = other) := by
  rw [atKeyword_eq, h]
  exact Kind.isWord_keyword k other

theorem atSymbol_symbol {stream : TokenStream} {s : Symbol} {rest : List Kind}
    (h : stream.kinds = .symbol s :: rest) (other : Symbol) :
    stream.atSymbol other = decide (s = other) := by
  rw [atSymbol_eq, h]
  rfl

theorem name?_word {stream : TokenStream} {w : String} {rest : List Kind}
    (h : stream.kinds = .word w :: rest) (hname : Word.isName w = true) :
    stream.name? = some w := by
  simp [name?, next?_eq_head?, h, hname]

theorem operator?_symbol {stream : TokenStream} {op : Operator} {level : Operator.Level}
    {rest : List Kind} (h : stream.kinds = .symbol (.operator op) :: rest)
    (hlevel : op.level = level) : stream.operator? level = some op := by
  simp [operator?, next?_eq_head?, h, hlevel]

theorem kinds_tail_of_cons {stream : TokenStream} {kind : Kind} {rest : List Kind}
    (h : stream.kinds = kind :: rest) : stream.tail.kinds = rest := by
  rw [kinds_tail, h, List.tail_cons]

theorem length_kinds (stream : TokenStream) : stream.kinds.length = stream.tokens.length :=
  List.length_map _

end TokenStream

namespace Parse

variable {α β X : Type}

/-- The reading takes these tokens off every stream that begins with them, if
what is left meets a condition. -/
def Accepts (p : Parse α) (kinds : List Kind) (result : α) (follow : List Kind → Prop) : Prop :=
  ∀ s rest, s.kinds = kinds ++ rest → follow rest → ∃ s', p s = .ok result s' ∧ s'.kinds = rest

/-- No condition on what follows. -/
def Anything (_ : List Kind) : Prop := True

namespace Accepts

variable {p : Parse α} {f : α → Parse β} {kinds later : List Kind} {a : α} {b : β}
  {follow next : List Kind → Prop}

theorem weaken (h : Accepts p kinds a follow) (hnext : ∀ rest, next rest → follow rest) :
    Accepts p kinds a next :=
  fun s rest hs hrest => h s rest hs (hnext rest hrest)

theorem pure (a : α) : Accepts (pure a) [] a follow :=
  fun s _ hs _ => ⟨s, rfl, hs⟩

theorem bind (hp : Accepts p kinds a follow) (hf : Accepts (f a) later b next)
    (hfollow : ∀ rest, next rest → follow (later ++ rest)) :
    Accepts (p >>= f) (kinds ++ later) b next := by
  intro s rest hs hrest
  obtain ⟨t, ht, htkinds⟩ := hp s (later ++ rest) (by rw [hs, List.append_assoc])
    (hfollow rest hrest)
  obtain ⟨u, hu, hukinds⟩ := hf t rest htkinds hrest
  refine ⟨u, ?_, hukinds⟩
  change EStateM.bind p f s = .ok b u
  rw [EStateM.bind, ht]
  exact hu

/-- When the first reading does not mind what follows it. -/
theorem andThen (hp : Accepts p kinds a Anything) (hf : Accepts (f a) later b next) :
    Accepts (p >>= f) (kinds ++ later) b next :=
  hp.bind hf fun _ _ => trivial

theorem bind_pure (hp : Accepts p kinds a follow) {g : α → β} :
    Accepts (p >>= fun x => Pure.pure (g x)) kinds (g a) follow := by
  intro s rest hs hrest
  obtain ⟨t, ht, htkinds⟩ := hp s rest hs hrest
  refine ⟨t, ?_, htkinds⟩
  change EStateM.bind p _ s = .ok (g a) t
  rw [EStateM.bind, ht]
  rfl

theorem keyword (k : Keyword) : Accepts (keyword k) [.keyword k] (.keyword k) follow := by
  intro s rest hs _
  have hat : s.atKeyword k = true := by
    rw [TokenStream.atKeyword_keyword hs, decide_eq_true rfl]
  exact ⟨s.tail, by rw [keyword_run, if_pos hat], TokenStream.kinds_tail_of_cons hs⟩

theorem symbol (sym : Symbol) : Accepts (symbol sym) [.symbol sym] (.word sym.text) follow := by
  intro s rest hs _
  have hat : s.atSymbol sym = true := by
    rw [TokenStream.atSymbol_symbol hs, decide_eq_true rfl]
  exact ⟨s.tail, by rw [symbol_run, if_pos hat], TokenStream.kinds_tail_of_cons hs⟩

theorem name (n : Name) : Accepts name [.word n.text] (.word n.text) follow := by
  intro s rest hs _
  exact ⟨s.tail, name_run_some (TokenStream.name?_word hs n.isName),
    TokenStream.kinds_tail_of_cons hs⟩

theorem keyword_bind {k : Keyword} {f : Phrase → Parse β}
    (hf : Accepts (f (.keyword k)) later b next) :
    Accepts (Parse.keyword k >>= f) (.keyword k :: later) b next :=
  andThen (keyword k) hf

theorem symbol_bind {sym : Symbol} {f : Phrase → Parse β}
    (hf : Accepts (f (.word sym.text)) later b next) :
    Accepts (Parse.symbol sym >>= f) (.symbol sym :: later) b next :=
  andThen (symbol sym) hf

theorem name_bind {n : Name} {f : Phrase → Parse β}
    (hf : Accepts (f (.word n.text)) later b next) :
    Accepts (Parse.name >>= f) (.word n.text :: later) b next :=
  andThen (name n) hf

/-- A reading that looks at the stream first goes on as the tokens decide. -/
theorem get_bind {p : Parse β} {f : TokenStream → Parse β}
    (hchoice : ∀ s rest, s.kinds = kinds ++ rest → follow rest → f s = p)
    (hp : Accepts p kinds b follow) : Accepts (get >>= f) kinds b follow := by
  intro s rest hs hrest
  rw [Parse.get_bind, hchoice s rest hs hrest]
  exact hp s rest hs hrest

end Accepts

theorem manyUpTo_accepts {more : TokenStream → Bool} {item : Parse α} {kinds : X → List Kind}
    {result : X → α} {follow : List Kind → Prop} {xs : List X} {bound : Nat}
    (hbound : xs.length < bound)
    (hitem : ∀ x ∈ xs, Accepts item (kinds x) (result x) follow)
    (hmore : ∀ x ∈ xs, ∀ s rest, s.kinds = kinds x ++ rest → more s = true)
    (hnext : ∀ x ∈ xs.tail, ∀ rest, follow (kinds x ++ rest)) :
    Accepts (manyUpTo more item bound) (xs.map kinds).flatten (xs.map result)
      (fun rest => follow rest ∧ ∀ s : TokenStream, s.kinds = rest → more s = false) := by
  induction xs generalizing bound with
  | nil =>
      obtain ⟨bound, rfl⟩ : ∃ n, bound = n + 1 := ⟨bound - 1, by omega⟩
      intro s rest hs hrest
      have hstop : more s = false := hrest.2 s hs
      exact ⟨s, by rw [manyUpTo_succ, hstop]; rfl, hs⟩
  | cons x xs ih =>
      obtain ⟨bound, rfl⟩ : ∃ n, bound = n + 1 := ⟨bound - 1, by omega⟩
      have hbound : xs.length < bound := by simpa using hbound
      have hrestRow := ih hbound
        (fun y hy => hitem y (List.mem_cons_of_mem x hy))
        (fun y hy => hmore y (List.mem_cons_of_mem x hy))
        (fun y hy => hnext y (List.mem_of_mem_tail hy))
      have hrow : Accepts (do
          let first ← item
          let rest ← manyUpTo more item bound
          return first :: rest) (kinds x ++ (xs.map kinds).flatten) (result x :: xs.map result)
          (fun rest => follow rest ∧ ∀ s : TokenStream, s.kinds = rest → more s = false) := by
        refine (hitem x List.mem_cons_self).bind hrestRow.bind_pure ?_
        intro rest hrest
        cases xs with
        | nil => exact hrest.1
        | cons y ys =>
            rw [List.map_cons, List.flatten_cons, List.append_assoc]
            exact hnext y List.mem_cons_self _
      intro s rest hs hrest
      have hgo : more s = true :=
        hmore x List.mem_cons_self s ((xs.map kinds).flatten ++ rest)
          (by rw [hs, List.map_cons, List.flatten_cons, List.append_assoc])
      rw [manyUpTo_succ, if_pos hgo]
      exact hrow s rest hs hrest

/-- As many items as there are. Each takes a token, so the bound is not met. -/
theorem many_accepts {more : TokenStream → Bool} {item : Parse α} {kinds : X → List Kind}
    {result : X → α} {follow : List Kind → Prop} {xs : List X}
    (hnonempty : ∀ x ∈ xs, kinds x ≠ [])
    (hitem : ∀ x ∈ xs, Accepts item (kinds x) (result x) follow)
    (hmore : ∀ x ∈ xs, ∀ s rest, s.kinds = kinds x ++ rest → more s = true)
    (hnext : ∀ x ∈ xs.tail, ∀ rest, follow (kinds x ++ rest)) :
    Accepts (many more item) (xs.map kinds).flatten (xs.map result)
      (fun rest => follow rest ∧ ∀ s : TokenStream, s.kinds = rest → more s = false) := by
  intro s rest hs hrest
  have hlength : xs.length ≤ (xs.map kinds).flatten.length := by
    clear hs hitem hmore hnext
    induction xs with
    | nil => exact Nat.zero_le _
    | cons x xs ih =>
        have hfirst := List.length_pos_iff.mpr (hnonempty x List.mem_cons_self)
        have hothers := ih fun y hy => hnonempty y (List.mem_cons_of_mem x hy)
        simp only [List.map_cons, List.flatten_cons, List.length_append, List.length_cons]
        omega
  have hbound : xs.length < s.tokens.length + 1 := by
    rw [← s.length_kinds, hs, List.length_append]
    omega
  exact manyUpTo_accepts hbound hitem hmore hnext s rest hs hrest

theorem bracketed_accepts {item : Parse Phrase} {kinds : X → List Kind} {result : X → Phrase}
    {follow : List Kind → Prop} {xs : List X}
    (hitem : ∀ x ∈ xs, Accepts item (kinds x) (result x) follow)
    (hopens : ∀ x ∈ xs, ∀ s rest, s.kinds = kinds x ++ rest →
      TokenStream.atSymbol s .rightParen = false)
    (hcomma : ∀ rest, follow (.symbol .comma :: rest))
    (hclosing : ∀ rest, follow (.symbol .rightParen :: rest)) :
    Accepts (bracketed item) (Concrete.bracketKinds (xs.map kinds)) (.brackets (xs.map result))
      Anything := by
  unfold bracketed
  cases xs with
  | nil =>
      refine .symbol_bind (.get_bind (p := do
        let closing ← symbol .rightParen
        return .group [.word Symbol.leftParen.text, closing]) ?_ ?_)
      · intro s rest hs _
        rw [if_pos (by rw [TokenStream.atSymbol_symbol hs, decide_eq_true rfl])]
        rfl
      · exact (Accepts.symbol .rightParen).bind_pure
  | cons x xs =>
      have hrest : Accepts (many (·.atSymbol .comma) do
          let comma ← symbol .comma
          let next ← item
          return [comma, next])
          (xs.map fun y => .symbol .comma :: kinds y).flatten
          (xs.map fun y => [.word Symbol.comma.text, result y])
          (fun rest => follow rest ∧
            ∀ s : TokenStream, s.kinds = rest → s.atSymbol .comma = false) := by
        apply many_accepts
        · intro y _
          exact List.cons_ne_nil _ _
        · intro y hy
          exact .symbol_bind (hitem y (List.mem_cons_of_mem x hy)).bind_pure
        · intro y _ s rest hs
          rw [TokenStream.atSymbol_symbol hs, decide_eq_true rfl]
        · intro y _ rest
          exact hcomma (kinds y ++ rest)
      have hclosed (rest : List Kind) : follow (.symbol .rightParen :: rest) ∧
          ∀ s : TokenStream, s.kinds = .symbol .rightParen :: rest → s.atSymbol .comma = false :=
        ⟨hclosing rest, fun s hs => by rw [TokenStream.atSymbol_symbol hs]; rfl⟩
      rw [List.map_cons, List.map_cons, Concrete.bracketKinds, intercalate_cons, Phrase.brackets,
        intersperse_cons]
      simp only [List.cons_append, List.append_assoc, List.map_map, Function.comp_def]
      refine .symbol_bind (.get_bind (fun s rest hs _ => if_neg ?_) ?_)
      · rw [hopens x List.mem_cons_self s _ (by rw [hs, List.append_assoc])]
        exact Bool.false_ne_true
      · refine (hitem x List.mem_cons_self).bind
          (hrest.bind (Accepts.symbol .rightParen).bind_pure fun rest _ => hclosed rest) ?_
        intro rest _
        cases xs with
        | nil => exact hclosing rest
        | cons y ys => exact hcomma _

theorem braced_accepts {item : Parse Phrase} {kinds : X → List Kind} {result : X → Phrase}
    {follow : List Kind → Prop} {xs : List X}
    (hnonempty : ∀ x ∈ xs, kinds x ≠ [])
    (hitem : ∀ x ∈ xs, Accepts item (kinds x) (result x) follow)
    (hopens : ∀ x ∈ xs, ∀ s rest, s.kinds = kinds x ++ rest →
      TokenStream.atSymbol s .rightBrace = false)
    (hnext : ∀ x ∈ xs.tail, ∀ rest, follow (kinds x ++ rest))
    (hclosing : ∀ rest, follow (.symbol .rightBrace :: rest)) :
    Accepts (braced item) (Concrete.braceKinds (xs.map kinds)) (.braces (xs.map result))
      Anything := by
  have hitems : Accepts (many (fun stream => !stream.atSymbol .rightBrace) do
      if (← get).atEnd then
        unexpected (.symbol .rightBrace)
      else
        item) (xs.map kinds).flatten (xs.map result)
      (fun rest => follow rest ∧
        ∀ s : TokenStream, s.kinds = rest → (!s.atSymbol .rightBrace) = false) := by
    apply many_accepts hnonempty
    · intro x hx
      refine .get_bind (fun s rest hs _ => if_neg ?_) (hitem x hx)
      intro hend
      rw [TokenStream.atEnd_iff, hs] at hend
      exact hnonempty x hx (List.append_eq_nil_iff.mp hend).1
    · intro x hx s rest hs
      rw [hopens x hx s rest hs]
      rfl
    · exact hnext
  unfold braced
  refine .symbol_bind (hitems.bind (Accepts.symbol .rightBrace).bind_pure ?_)
  intro rest _
  refine ⟨hclosing rest, fun s hs => ?_⟩
  rw [TokenStream.atSymbol_symbol hs, decide_eq_true rfl]
  rfl

end Parse

end Wabun
