import Wabun.Phrase.Parser
import Wabun.Proofs.Concrete

/-!
How single readings run on a token stream. A reading looks at the kinds of the
tokens only, so the places of the tokens are left out of every statement.
-/

namespace Wabun

open Token (Kind)

/-- The tokens still to be read, without their places. -/
def TokenStream.kinds (stream : TokenStream) : List Kind :=
  stream.tokens.map Token.kind

namespace TokenStream

theorem next?_eq_head? (stream : TokenStream) : stream.next? = stream.kinds.head? := by
  simp [next?, kinds]

theorem kinds_tail (stream : TokenStream) : stream.tail.kinds = stream.kinds.tail := by
  simp [tail, kinds]

theorem atEnd_iff (stream : TokenStream) : stream.atEnd = true ↔ stream.kinds = [] := by
  simp [atEnd, kinds]

theorem kinds_of_next? {stream : TokenStream} {kind : Kind} (h : stream.next? = some kind) :
    stream.kinds = kind :: stream.tail.kinds := by
  rw [next?_eq_head?, List.head?_eq_some_iff] at h
  obtain ⟨rest, h⟩ := h
  rw [kinds_tail, h, List.tail_cons]

theorem next?_of_atKeyword {stream : TokenStream} {k : Keyword}
    (h : stream.atKeyword k = true) : stream.next? = some (.keyword k) := by
  unfold atKeyword at h
  cases hnext : stream.next? with
  | none => simp [hnext] at h
  | some kind =>
      cases kind with
      | word w =>
          have hw : w = k.text := by simpa [hnext, Kind.isWord] using h
          rw [hw, Kind.keyword]
      | number | text | truth | symbol => simp [hnext, Kind.isWord] at h

theorem next?_of_atSymbol {stream : TokenStream} {s : Symbol}
    (h : stream.atSymbol s = true) : stream.next? = some (.symbol s) := by
  unfold atSymbol at h
  cases hnext : stream.next? with
  | none => simp [hnext] at h
  | some kind =>
      cases kind with
      | symbol other =>
          have hs : other = s := by simpa [hnext, Kind.isSymbol] using h
          rw [hs]
      | number | text | truth | word => simp [hnext, Kind.isSymbol] at h

theorem next?_of_name? {stream : TokenStream} {w : String} (h : stream.name? = some w) :
    stream.next? = some (.word w) ∧ Word.isName w = true := by
  unfold name? at h
  split at h
  · next other hnext =>
      split at h
      · next hname =>
          obtain rfl := Option.some.inj h
          exact ⟨hnext, hname⟩
      · cases h
  · cases h

theorem next?_of_operator? {stream : TokenStream} {level : Operator.Level} {op : Operator}
    (h : stream.operator? level = some op) :
    stream.next? = some (.symbol (.operator op)) ∧ op.level = level := by
  unfold operator? at h
  split at h
  · next other hnext =>
      split at h
      · next hlevel =>
          obtain rfl := Option.some.inj h
          exact ⟨hnext, hlevel⟩
      · cases h
  · cases h

end TokenStream

namespace Parse

variable {α β : Type}

theorem bind_ok {p : Parse α} {f : α → Parse β} {s s' : TokenStream} {b : β}
    (h : (p >>= f) s = .ok b s') : ∃ a t, p s = .ok a t ∧ f a t = .ok b s' := by
  change EStateM.bind p f s = .ok b s' at h
  unfold EStateM.bind at h
  split at h
  · next a t hp => exact ⟨a, t, hp, h⟩
  · cases h

theorem pure_ok {a b : α} {s s' : TokenStream} (h : (pure a : Parse α) s = .ok b s') :
    b = a ∧ s' = s := by
  cases h
  exact ⟨rfl, rfl⟩

theorem ite_ok {condition : Prop} [Decidable condition] {p q : Parse α} {s s' : TokenStream} {a : α}
    (h : (if condition then p else q) s = .ok a s') : p s = .ok a s' ∨ q s = .ok a s' := by
  by_cases hcondition : condition
  · rw [if_pos hcondition] at h
    exact .inl h
  · rw [if_neg hcondition] at h
    exact .inr h

theorem keyword_run (k : Keyword) (s : TokenStream) :
    keyword k s =
      if s.atKeyword k then .ok (.keyword k) s.tail
      else .error ⟨⟨.keyword k, s.next?⟩, s.place⟩ s := by
  change (if s.atKeyword k then (do advance; return .keyword k : Parse Phrase)
    else unexpected (.keyword k)) s = _
  split <;> rfl

theorem symbol_run (sym : Symbol) (s : TokenStream) :
    symbol sym s =
      if s.atSymbol sym then .ok (.word sym.text) s.tail
      else .error ⟨⟨.symbol sym, s.next?⟩, s.place⟩ s := by
  change (if s.atSymbol sym then (do advance; return .word sym.text : Parse Phrase)
    else unexpected (.symbol sym)) s = _
  split <;> rfl

theorem get_bind (f : TokenStream → Parse β) (s : TokenStream) : (get >>= f) s = f s s := rfl

theorem advance_bind (f : Unit → Parse β) (s : TokenStream) :
    (advance >>= f) s = f () s.tail := rfl

theorem name_run_some {s : TokenStream} {w : String} (h : s.name? = some w) :
    name s = .ok (.word w) s.tail := by
  unfold name
  rw [get_bind, h]
  rfl

theorem name_run_none {s : TokenStream} (h : s.name? = none) :
    name s = .error ⟨⟨.name, s.next?⟩, s.place⟩ s := by
  unfold name
  rw [get_bind, h]
  rfl

theorem manyUpTo_succ (more : TokenStream → Bool) (item : Parse α) (bound : Nat)
    (s : TokenStream) :
    manyUpTo more item (bound + 1) s =
      if more s then
        (do
          let first ← item
          let rest ← manyUpTo more item bound
          return first :: rest : Parse (List α)) s
      else .ok [] s := by
  change (if more s then (do
      let first ← item
      let rest ← manyUpTo more item bound
      return first :: rest : Parse (List α)) else pure []) s = _
  split <;> rfl

end Parse

namespace Grammar

open Parse

variable {grammar : Grammar} {s : TokenStream}

theorem operandStep_of_number {x : Float} (hminus : s.atSymbol (.operator .sub) = true)
    (hnext : s.tail.next? = some (.number x)) :
    grammar.operandStep s = .ok (.number (-x)) s.tail.tail := by
  unfold operandStep
  rw [get_bind, if_pos hminus, advance_bind, get_bind, hnext]
  rfl

theorem operandStep_of_minus (hminus : s.atSymbol (.operator .sub) = true)
    (hnumber : ∀ x, s.tail.next? ≠ some (.number x)) :
    grammar.operandStep s =
      (do
        let operand ← grammar.operand
        return .group [.number 0, .word Operator.sub.symbol, operand] : Parse Phrase) s.tail := by
  unfold operandStep
  rw [get_bind, if_pos hminus, advance_bind, get_bind]
  cases hnext : s.tail.next? with
  | none => rfl
  | some kind =>
      cases kind with
      | number x => exact absurd hnext (hnumber x)
      | word | text | truth | symbol => rfl

theorem operandStep_of_not_minus (hminus : ¬ s.atSymbol (.operator .sub) = true) :
    grammar.operandStep s = grammar.primary s := by
  unfold operandStep
  rw [get_bind, if_neg hminus]

end Grammar

/-- A text is given up at its first unreadable character, or at a token that the
grammar does not accept, or it has a phrase. -/
theorem Phrase.ofText_cases (source : String) :
    (∃ located, TokenStream.ofText source = .error located ∧
      ofText source = .error (.ofLexical located)) ∨
    ∃ stream, TokenStream.ofText source = .ok stream ∧
      ((∃ located rest, Parse.program stream = .error located rest ∧
        ofText source = .error (.ofGrammar located)) ∨
      ∃ phrase rest, Parse.program stream = .ok phrase rest ∧ ofText source = .ok phrase) := by
  unfold ofText
  cases TokenStream.ofText source with
  | error located => exact .inl ⟨located, rfl, rfl⟩
  | ok stream =>
      refine .inr ⟨stream, rfl, ?_⟩
      dsimp only [Except.mapError, bind, Except.bind]
      cases Parse.program stream with
      | error located rest => exact .inl ⟨located, rest, rfl, rfl⟩
      | ok phrase rest => exact .inr ⟨phrase, rest, rfl, rfl⟩

end Wabun
