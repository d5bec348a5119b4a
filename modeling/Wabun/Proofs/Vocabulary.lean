import Wabun.Token

/-!
The words that the language keeps for itself are all different, and none of
them is a name.
-/

namespace Wabun

namespace Keyword

theorem mem_all (k : Keyword) : k ∈ all := by
  cases k <;> decide

theorem find?_text (k : Keyword) : all.find? (fun other => other.text == k.text) = some k := by
  cases k <;> decide

theorem text_injective {a b : Keyword} (h : a.text = b.text) : a = b := by
  have ha := find?_text a
  rw [h, find?_text b] at ha
  exact (Option.some.inj ha).symm

@[simp]
theorem text_eq_iff {a b : Keyword} : a.text = b.text ↔ a = b :=
  ⟨text_injective, congrArg text⟩

end Keyword

namespace Operator

@[simp]
theorem ofSymbol?_symbol (op : Operator) : ofSymbol? op.symbol = some op := by
  cases op <;> rfl

theorem isOperator_symbol (op : Operator) : Word.isOperator op.symbol = true := by
  cases op <;> decide

/-- Every word that is kept for an operator is the symbol of one. -/
theorem exists_of_isOperator {w : String} (h : Word.isOperator w = true) :
    ∃ op : Operator, w = op.symbol := by
  have hsymbols : Word.operators =
      [add, sub, mul, div, eq, ne, lt, gt, le, ge].map Operator.symbol := rfl
  rw [Word.isOperator, List.contains_iff_mem, hsymbols] at h
  obtain ⟨op, _, hop⟩ := List.mem_map.mp h
  exact ⟨op, hop.symm⟩

theorem eq_symbol_of_ofSymbol? {w : String} {op : Operator} (h : ofSymbol? w = some op) :
    w = op.symbol := by
  unfold ofSymbol? at h
  split at h <;> cases h <;> rfl

/-- A word is kept for an operator if there is one to be found for it. -/
theorem isSome_ofSymbol? (w : String) : (ofSymbol? w).isSome = Word.isOperator w := by
  rw [Bool.eq_iff_iff]
  constructor
  · intro h
    obtain ⟨op, hop⟩ := Option.isSome_iff_exists.mp h
    rw [eq_symbol_of_ofSymbol? hop]
    exact isOperator_symbol op
  · intro h
    obtain ⟨op, rfl⟩ := exists_of_isOperator h
    rw [ofSymbol?_symbol]
    rfl

theorem isOperator_of_isName {w : String} (h : Word.isName w = true) :
    Word.isOperator w = false := by
  simpa using (Bool.and_eq_true_iff.mp h).2

end Operator

namespace Word

theorem isKeyword_text (k : Keyword) : isKeyword k.text = true :=
  List.any_eq_true.mpr ⟨k, Keyword.mem_all k, beq_self_eq_true _⟩

@[simp]
theorem isName_keyword (k : Keyword) : isName k.text = false := by
  simp [isName, isKeyword_text]

@[simp]
theorem isName_symbol (s : Symbol) : isName s.text = false := by
  cases s with
  | operator op => cases op <;> decide
  | leftBrace | rightBrace | leftParen | rightParen | comma => decide

theorem ne_of_isName {w reserved : String} (h : isName w = true)
    (hreserved : isName reserved = false) : w ≠ reserved := by
  intro heq
  rw [heq, hreserved] at h
  cases h

@[simp]
theorem isPunctuation_of_isName {w : String} (h : isName w = true) : isPunctuation w = false := by
  cases hw : isPunctuation w with
  | false => rfl
  | true => simp [isName, hw] at h

theorem isComma_of_isName {w : String} (h : isName w = true) : isComma w = false := by
  have hcomma : w ≠ "," := ne_of_isName h (by decide)
  have hwide : w ≠ "、" := ne_of_isName h (by decide)
  simp [isComma, hcomma, hwide]

end Word

theorem Symbol.text_ne_keyword (s : Symbol) (k : Keyword) : s.text ≠ k.text := by
  intro h
  have hname : Word.isKeyword s.text = true := h ▸ Word.isKeyword_text k
  cases s with
  | operator op => cases op <;> exact absurd hname (by decide)
  | leftBrace | rightBrace | leftParen | rightParen | comma => exact absurd hname (by decide)

end Wabun
