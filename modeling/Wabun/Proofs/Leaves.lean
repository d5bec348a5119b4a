import Wabun.Proofs.Recognition

/-!
Every token stays in the phrase. What the reader of token streams gives has for its
leaves the tokens themselves, each once and in the order of the source; only minus
signs are read as what they do. Which minus signs stand between two operands shows
from the tokens before them, so the leaves can be told without the grammar.
-/

namespace Wabun

open Token (Kind)

namespace Phrase

mutual

/-- The leaves of a phrase in order. -/
def leaves : Phrase → List Atom
  | .leaf atom => [atom]
  | .group parts => leavesOfAll parts

def leavesOfAll : List Phrase → List Atom
  | [] => []
  | part :: rest => leaves part ++ leavesOfAll rest

end

theorem leavesOfAll_eq_flatMap (parts : List Phrase) :
    leavesOfAll parts = parts.flatMap leaves := by
  induction parts with
  | nil => rfl
  | cons part rest ih => rw [leavesOfAll, ih, List.flatMap_cons]

@[simp]
theorem leaves_leaf (atom : Atom) : (Phrase.leaf atom).leaves = [atom] := by
  rw [leaves]

@[simp]
theorem leaves_group (parts : List Phrase) : (group parts).leaves = parts.flatMap leaves := by
  rw [leaves, leavesOfAll_eq_flatMap]

@[simp]
theorem leaves_word (text : String) : (word text).leaves = [.word text] := leaves_leaf _

@[simp]
theorem leaves_number (x : Float) : (number x).leaves = [.number x] := leaves_leaf _

@[simp]
theorem leaves_keyword (k : Keyword) : (keyword k).leaves = [.word k.text] := leaves_leaf _

end Phrase

/-- The key word that is written so. -/
def Keyword.ofText? (text : String) : Option Keyword :=
  all.find? fun keyword => keyword.text == text

@[simp]
theorem Keyword.ofText?_text (k : Keyword) : ofText? k.text = some k :=
  find?_text k

theorem Keyword.ofText?_of_isName {text : String} (h : Word.isName text = true) :
    ofText? text = none := by
  apply List.find?_eq_none.mpr
  intro k _ hk
  rw [← beq_iff_eq.mp hk, Word.isName_keyword] at h
  cases h

def Symbol.IsPunctuation : Symbol → Prop
  | .operator _ => False
  | _ => True

namespace Token

/-- Where the next token stands: before an operand, directly behind one, or where a
name is that is no operand, namely the function of a call, a module or a type. -/
inductive Place where
  | ahead
  | behind
  | naming
deriving DecidableEq

/-- The place of the next token, and whether the tokens of a type inspection up to its
`は` are being read. -/
structure Context where
  place : Place
  inspecting : Bool

namespace Context

@[simp]
def move (context : Context) (place : Place) : Context := ⟨place, context.inspecting⟩

@[simp]
def afterKeyword (context : Context) : Keyword → Context
  | .object | .importing => context.move .naming
  | .inspectType => ⟨.ahead, true⟩
  | .topic => ⟨if context.inspecting then .naming else .ahead, false⟩
  | _ => context.move .ahead

/-- Behind a name that is no operand a statement is complete. -/
@[simp]
def afterName (context : Context) : Context :=
  context.move (if context.place = .naming then .ahead else .behind)

@[simp]
def after (context : Context) : Kind → Context
  | .word w =>
    match Keyword.ofText? w with
    | some k => context.afterKeyword k
    | none => context.afterName
  | .text _ => context.afterName
  | .number _ | .truth _ | .symbol .rightParen => context.move .behind
  | .symbol _ => context.move .ahead

/-- A token by itself. A minus sign that has no operand before it subtracts from zero. -/
def atoms (context : Context) : Kind → List Atom
  | .word w => [.word w]
  | .text s => [.text s]
  | .number x => [.number x]
  | .truth b => [.truth b]
  | .symbol (.operator .sub) =>
    if context.place = .behind then [.word Operator.sub.symbol]
    else [.number 0, .word Operator.sub.symbol]
  | .symbol sym => [.word sym.text]

/-- The tokens as leaves. A minus sign that has no operand before it and a number
behind it makes the number negative. -/
def read : Context → List Kind → List Atom
  | _, [] => []
  | context, .symbol (.operator .sub) :: .number x :: rest =>
    (if context.place = .behind then [.word Operator.sub.symbol, .number x] else [.number (-x)]) ++
      (context.move .behind).read rest
  | context, kind :: rest => context.atoms kind ++ (context.after kind).read rest

variable {context : Context} {rest : List Kind}

theorem read_of_ne {kind : Kind} (h : kind ≠ .symbol (.operator .sub)) (context : Context)
    (rest : List Kind) :
    context.read (kind :: rest) = context.atoms kind ++ (context.after kind).read rest := by
  rw [read]
  intro x later hkind
  exact absurd hkind h

theorem read_minus_number (h : context.place ≠ .behind) (x : Float) :
    context.read (.symbol (.operator .sub) :: .number x :: rest) =
      .number (-x) :: (context.move .behind).read rest := by
  rw [read, if_neg h]
  rfl

theorem read_minus (h : context.place ≠ .behind) (hrest : ∀ x, rest.head? ≠ some (.number x)) :
    context.read (.symbol (.operator .sub) :: rest) =
      .number 0 :: .word Operator.sub.symbol :: (context.move .ahead).read rest := by
  have hother : context.read (.symbol (.operator .sub) :: rest) =
      context.atoms (.symbol (.operator .sub)) ++ (context.move .ahead).read rest := by
    rw [read]
    · rfl
    · intro x later _ hlater
      exact hrest x (by rw [hlater]; rfl)
  rw [hother, atoms, if_neg h]
  rfl

/-- Behind an operand a minus sign stands between two. -/
theorem read_operator (h : context.place = .behind) (op : Operator) :
    context.read (.symbol (.operator op) :: rest) =
      .word op.symbol :: (context.move .ahead).read rest := by
  by_cases hminus : op = .sub
  · subst hminus
    by_cases hnumber : ∃ x later, rest = .number x :: later
    · obtain ⟨x, later, rfl⟩ := hnumber
      rw [read, if_pos h, read_of_ne Kind.noConfusion]
      rfl
    · rw [read, atoms, if_pos h]
      · rfl
      · intro x later _ hlater
        exact hnumber ⟨x, later, hlater⟩
  · have hne : Kind.symbol (.operator op) ≠ .symbol (.operator .sub) := by simp [hminus]
    rw [read_of_ne hne]
    cases op with
    | sub => exact absurd rfl hminus
    | _ => rfl

theorem read_symbol {sym : Symbol} (h : sym.IsPunctuation) (context : Context)
    (rest : List Kind) :
    context.read (.symbol sym :: rest) =
      .word sym.text :: (context.after (.symbol sym)).read rest := by
  cases sym with
  | operator op => cases h
  | _ => exact read_of_ne (by simp) context rest

theorem read_keyword (context : Context) (k : Keyword) (rest : List Kind) :
    context.read (.keyword k :: rest) = .word k.text :: (context.afterKeyword k).read rest := by
  rw [Kind.keyword, read_of_ne Kind.noConfusion, after, Keyword.ofText?_text]
  rfl

theorem read_name {w : String} (h : Word.isName w = true) (context : Context) (rest : List Kind) :
    context.read (.word w :: rest) = .word w :: context.afterName.read rest := by
  rw [read_of_ne Kind.noConfusion, after, Keyword.ofText?_of_isName h]
  rfl

theorem atoms_behind (inspecting : Bool) {kind : Kind} (h : kind ≠ .symbol (.operator .sub)) :
    atoms ⟨.behind, inspecting⟩ kind = atoms ⟨.ahead, inspecting⟩ kind := by
  cases kind with
  | symbol sym =>
      cases sym with
      | operator op =>
          cases op with
          | sub => exact absurd rfl h
          | _ => rfl
      | _ => rfl
  | _ => rfl

theorem after_behind (inspecting : Bool) (kind : Kind) :
    after ⟨.behind, inspecting⟩ kind = after ⟨.ahead, inspecting⟩ kind := by
  cases kind with
  | word w =>
      unfold after
      cases Keyword.ofText? w with
      | none => rfl
      | some k => cases k <;> rfl
  | symbol sym => cases sym <;> rfl
  | _ => rfl

/-- Where no minus sign follows, it is the same whether an operand is complete. -/
theorem read_behind (inspecting : Bool) (h : rest.head? ≠ some (.symbol (.operator .sub))) :
    read ⟨.behind, inspecting⟩ rest = read ⟨.ahead, inspecting⟩ rest := by
  cases rest with
  | nil => rw [read, read]
  | cons kind later =>
      have hkind : kind ≠ .symbol (.operator .sub) := fun hminus => h (congrArg some hminus)
      rw [read_of_ne hkind, read_of_ne hkind]
      rw [atoms_behind inspecting hkind, after_behind]

end Context

end Token

namespace Parse

open Token (Context Place)

variable {α β : Type}

/-- Every success gives a phrase whose leaves are the tokens that it takes, and leads
from the one context to the other. -/
def Copies (before after : Context) (p : Parse Phrase) : Prop :=
  ∀ s a s', p s = .ok a s' → before.read s.kinds = a.leaves ++ after.read s'.kinds

theorem Copies.bind_ok {before after : Context} {p : Parse Phrase} {f : Phrase → Parse β}
    {s s' : TokenStream} {b : β} (hp : Copies before after p) (h : (p >>= f) s = .ok b s') :
    ∃ a t, before.read s.kinds = a.leaves ++ after.read t.kinds ∧ f a t = .ok b s' := by
  obtain ⟨a, t, ha, h⟩ := Parse.bind_ok h
  exact ⟨a, t, hp s a t ha, h⟩

theorem keyword_copies (k : Keyword) (context : Context) :
    Copies context (context.afterKeyword k) (keyword k) := by
  intro s a s' h
  obtain ⟨_, hkinds, rfl⟩ := keyword_yields k s a s' h
  rw [hkinds, List.cons_append, List.nil_append, Context.read_keyword, Phrase.leaves_keyword]
  rfl

theorem symbol_copies (sym : Symbol) (hsym : sym.IsPunctuation) (context : Context) :
    Copies context (context.after (.symbol sym)) (symbol sym) := by
  intro s a s' h
  obtain ⟨_, hkinds, rfl⟩ := symbol_yields sym s a s' h
  rw [hkinds, List.cons_append, List.nil_append, Context.read_symbol hsym, Phrase.leaves_word]
  rfl

theorem name_copies (context : Context) : Copies context context.afterName name := by
  intro s a s' h
  obtain ⟨n, hkinds, rfl⟩ := name_yields s a s' h
  rw [hkinds, List.cons_append, List.nil_append, Context.read_name n.isName, Phrase.leaves_word]
  rfl

/-- Items are copied one after another, whichever of the contexts they begin and end
with. -/
theorem manyUpTo_copies {more : TokenStream → Bool} {item : Parse α} {leaves : α → List Atom}
    {admits : Context → Prop}
    (hitem : ∀ s a s' context, item s = .ok a s' → admits context →
      ∃ after, admits after ∧ context.read s.kinds = leaves a ++ after.read s'.kinds)
    {bound : Nat} {s s' : TokenStream} {items : List α} {context : Context}
    (h : manyUpTo more item bound s = .ok items s') (hcontext : admits context) :
    ∃ after, admits after ∧ context.read s.kinds = items.flatMap leaves ++ after.read s'.kinds := by
  induction bound generalizing s items context with
  | zero =>
      obtain ⟨rfl, rfl⟩ := pure_ok h
      exact ⟨context, hcontext, rfl⟩
  | succ bound ih =>
      rw [manyUpTo_succ] at h
      split at h
      · obtain ⟨a, t, ha, h⟩ := bind_ok h
        obtain ⟨rest, u, hrest, h⟩ := bind_ok h
        obtain ⟨rfl, rfl⟩ := pure_ok h
        obtain ⟨middle, hmiddle, hfirst⟩ := hitem s a t context ha hcontext
        obtain ⟨after, hafter, hlater⟩ := ih hrest hmiddle
        refine ⟨after, hafter, ?_⟩
        rw [hfirst, hlater, List.flatMap_cons, List.append_assoc]
      · cases h
        exact ⟨context, hcontext, rfl⟩

/-- Items are copied one after another if each leads back to the context. -/
theorem many_copies {more : TokenStream → Bool} {item : Parse α} {leaves : α → List Atom}
    {context : Context}
    (hitem : ∀ s a s', item s = .ok a s' →
      context.read s.kinds = leaves a ++ context.read s'.kinds)
    {s s' : TokenStream} {items : List α} (h : many more item s = .ok items s') :
    context.read s.kinds = items.flatMap leaves ++ context.read s'.kinds := by
  have hread : manyUpTo more item (s.tokens.length + 1) s = .ok items s' := h
  have hback : ∀ s a s' other, item s = .ok a s' → other = context →
      ∃ after, after = context ∧ other.read s.kinds = leaves a ++ after.read s'.kinds := by
    rintro s a s' _ ha rfl
    exact ⟨_, rfl, hitem s a s' ha⟩
  obtain ⟨_, rfl, hcopied⟩ := manyUpTo_copies hback hread rfl
  exact hcopied

theorem bracketed_copies {item : Parse Phrase} {place : Place} {inspecting : Bool}
    (hitem : Copies ⟨.ahead, inspecting⟩ ⟨place, inspecting⟩ item) (before : Place) :
    Copies ⟨before, inspecting⟩ ⟨.behind, inspecting⟩ (bracketed item) := by
  have hnext : ∀ s a s', (do
      let comma ← symbol .comma
      let next ← item
      return [comma, next] : Parse (List Phrase)) s = .ok a s' →
      Context.read ⟨place, inspecting⟩ s.kinds =
        a.flatMap Phrase.leaves ++ Context.read ⟨place, inspecting⟩ s'.kinds := by
    intro s a s' h
    obtain ⟨comma, t, ht, h⟩ := (symbol_copies .comma trivial ⟨place, inspecting⟩).bind_ok h
    obtain ⟨next, u, hu, h⟩ := hitem.bind_ok h
    obtain ⟨rfl, rfl⟩ := pure_ok h
    simp [ht, hu]
  intro s a s' h
  unfold bracketed at h
  obtain ⟨opening, t, ht, h⟩ := (symbol_copies .leftParen trivial ⟨before, inspecting⟩).bind_ok h
  rw [get_bind] at h
  dsimp only at h
  split at h
  · obtain ⟨_, u, hu, h⟩ := bind_ok h
    obtain ⟨rfl, rfl⟩ := pure_ok hu
    obtain ⟨closing, v, hv, h⟩ := (symbol_copies .rightParen trivial ⟨.ahead, inspecting⟩).bind_ok h
    obtain ⟨rfl, rfl⟩ := pure_ok h
    simp [ht, hv]
  · obtain ⟨first, u, hu, h⟩ := hitem.bind_ok h
    obtain ⟨rest, v, hv, h⟩ := bind_ok h
    obtain ⟨_, w, hw, h⟩ := bind_ok h
    obtain ⟨rfl, rfl⟩ := pure_ok hw
    obtain ⟨closing, x, hx, h⟩ := (symbol_copies .rightParen trivial ⟨place, inspecting⟩).bind_ok h
    obtain ⟨rfl, rfl⟩ := pure_ok h
    have hrest := many_copies hnext hv
    simp [ht, hu, hrest, hx, ← List.flatMap_id, List.flatMap_assoc]

theorem braced_copies {item : Parse Phrase}
    (hitem : Copies ⟨.ahead, false⟩ ⟨.ahead, false⟩ item) (before : Place) :
    Copies ⟨before, false⟩ ⟨.ahead, false⟩ (braced item) := by
  have hguarded : Copies ⟨.ahead, false⟩ ⟨.ahead, false⟩ (do
      if (← get).atEnd then
        unexpected (.symbol .rightBrace)
      else
        item) := by
    intro s a s' h
    rw [get_bind] at h
    split at h
    · cases h
    · exact hitem s a s' h
  intro s a s' h
  unfold braced at h
  obtain ⟨opening, t, ht, h⟩ := (symbol_copies .leftBrace trivial ⟨before, false⟩).bind_ok h
  obtain ⟨items, u, hu, h⟩ := bind_ok h
  obtain ⟨closing, v, hv, h⟩ := (symbol_copies .rightBrace trivial ⟨.ahead, false⟩).bind_ok h
  obtain ⟨rfl, rfl⟩ := pure_ok h
  have hitems := many_copies hguarded hu
  simp [ht, hitems, hv]

theorem joint_copies {level : Operator.Level} {operand : Parse Phrase} {inspecting : Bool}
    (hoperand : Copies ⟨.ahead, inspecting⟩ ⟨.behind, inspecting⟩ operand) :
    ∀ s a s', joint level operand s = .ok a s' →
      Context.read ⟨.behind, inspecting⟩ s.kinds =
        .word a.1.symbol :: a.2.leaves ++ Context.read ⟨.behind, inspecting⟩ s'.kinds := by
  intro s a s' h
  unfold joint at h
  rw [get_bind] at h
  cases hop : s.operator? level with
  | none =>
      rw [hop] at h
      cases h
  | some op =>
      rw [hop] at h
      obtain ⟨hnext, _⟩ := TokenStream.next?_of_operator? hop
      obtain ⟨_, t, ht, h⟩ := bind_ok h
      cases ht
      obtain ⟨right, u, hu, h⟩ := hoperand.bind_ok h
      obtain ⟨rfl, rfl⟩ := pure_ok h
      rw [TokenStream.kinds_of_next? hnext, Context.read_operator rfl]
      simp [hu]

/-- A row of operands, grouped to the left. -/
theorem leaves_row (first : Phrase) (joints : List (Operator × Phrase)) :
    (joints.foldl (fun left joint => .group [left, .word joint.1.symbol, joint.2]) first).leaves =
      first.leaves ++ joints.flatMap fun joint => .word joint.1.symbol :: joint.2.leaves := by
  induction joints generalizing first with
  | nil => simp
  | cons joint rest ih =>
      rw [List.foldl_cons, ih]
      simp

theorem joined_copies (level : Operator.Level) {operand : Parse Phrase} {inspecting : Bool}
    (hoperand : Copies ⟨.ahead, inspecting⟩ ⟨.behind, inspecting⟩ operand) :
    Copies ⟨.ahead, inspecting⟩ ⟨.behind, inspecting⟩ (joined level operand) := by
  intro s a s' h
  unfold joined at h
  obtain ⟨first, t, ht, h⟩ := hoperand.bind_ok h
  obtain ⟨joints, u, hu, h⟩ := bind_ok h
  obtain ⟨rfl, rfl⟩ := pure_ok h
  have hrow := leaves_row first joints
  rw [ht, many_copies (joint_copies hoperand) hu, ← List.append_assoc, ← hrow]

/-- What holds behind every item holds behind all of them. -/
theorem manyUpTo_ends {more : TokenStream → Bool} {item : Parse α} {holds : TokenStream → Prop}
    (hitem : ∀ s a s', item s = .ok a s' → holds s') {bound : Nat} {s s' : TokenStream}
    {items : List α} (h : manyUpTo more item bound s = .ok items s') (hs : holds s) :
    holds s' := by
  induction bound generalizing s items with
  | zero =>
      obtain ⟨rfl, rfl⟩ := pure_ok h
      exact hs
  | succ bound ih =>
      rw [manyUpTo_succ] at h
      split at h
      · obtain ⟨a, t, ha, h⟩ := bind_ok h
        obtain ⟨rest, u, hrest, h⟩ := bind_ok h
        obtain ⟨rfl, rfl⟩ := pure_ok h
        exact ih hrest (hitem s a t ha)
      · cases h
        exact hs

/-- Where the reading ends there is no minus sign. -/
def TakesMinus (p : Parse Phrase) : Prop :=
  ∀ s a s', p s = .ok a s' → s'.kinds.head? ≠ some (.symbol (.operator .sub))

open Concrete (Expression Rank)

/-- A row of the level of the minus sign goes on with every minus sign. -/
theorem additive_takesMinus {operand : Parse Phrase}
    (hoperand : Yields operand (@Expression.kinds (Rank.below .additive)) Expression.phrase) :
    TakesMinus (joined .additive operand) := by
  intro s a s' h hminus
  unfold joined at h
  obtain ⟨first, t, _, h⟩ := bind_ok h
  obtain ⟨joints, u, hu, h⟩ := bind_ok h
  obtain ⟨rfl, rfl⟩ := pure_ok h
  have hstop := many_stops (joint_yields hoperand) (fun _ => List.cons_ne_nil _ _) hu
  rw [← TokenStream.next?_eq_head?] at hminus
  simp [TokenStream.operator?, hminus, Operator.level] at hstop

theorem joined_takesMinus (level : Operator.Level) {operand : Parse Phrase}
    (hoperand : TakesMinus operand) : TakesMinus (joined level operand) := by
  have hjoint : ∀ s a s', joint level operand s = .ok a s' →
      s'.kinds.head? ≠ some (.symbol (.operator .sub)) := by
    intro s a s' h
    unfold joint at h
    rw [get_bind] at h
    cases hop : s.operator? level with
    | none =>
        rw [hop] at h
        cases h
    | some op =>
        rw [hop] at h
        obtain ⟨_, t, _, h⟩ := bind_ok h
        obtain ⟨right, u, hu, h⟩ := bind_ok h
        obtain ⟨rfl, rfl⟩ := pure_ok h
        exact hoperand t right s' hu
  intro s a s' h
  unfold joined at h
  obtain ⟨first, t, ht, h⟩ := bind_ok h
  obtain ⟨joints, u, hu, h⟩ := bind_ok h
  obtain ⟨rfl, rfl⟩ := pure_ok h
  exact manyUpTo_ends hjoint hu (hoperand s first t ht)

/-- Where it takes every minus sign, a reading comes to the end of an operand in the
same way as to the end of a statement. -/
theorem Copies.ahead {before : Context} {inspecting : Bool} {p : Parse Phrase}
    (h : Copies before ⟨.behind, inspecting⟩ p) (hminus : TakesMinus p) :
    Copies before ⟨.ahead, inspecting⟩ p := by
  intro s a s' hrun
  rw [h s a s' hrun, Context.read_behind inspecting (hminus s a s' hrun)]

end Parse

namespace Grammar

open Concrete Parse
open Token (Context Place)

variable {grammar : Grammar}

/-- The recursive parts of a grammar copy the tokens. -/
structure Faithful (grammar : Grammar) : Prop where
  statement : Copies ⟨.ahead, false⟩ ⟨.ahead, false⟩ grammar.statement
  sentence : Copies ⟨.ahead, false⟩ ⟨.ahead, false⟩ grammar.sentence
  expression : ∀ inspecting, Copies ⟨.ahead, inspecting⟩ ⟨.ahead, inspecting⟩ grammar.expression
  operand : ∀ inspecting, Copies ⟨.ahead, inspecting⟩ ⟨.behind, inspecting⟩ grammar.operand

theorem creation_copies (inspecting : Bool) :
    Copies ⟨.ahead, inspecting⟩ ⟨.behind, inspecting⟩ creation := by
  intro s a s' h
  obtain ⟨marker, t, ht, h⟩ := (keyword_copies .create ⟨.ahead, inspecting⟩).bind_ok h
  obtain ⟨className, u, hu, h⟩ := (name_copies ⟨.ahead, inspecting⟩).bind_ok h
  obtain ⟨rfl, rfl⟩ := pure_ok h
  simp [ht, hu]

theorem primary_copies (hg : grammar.Faithful) (inspecting : Bool) :
    Copies ⟨.ahead, inspecting⟩ ⟨.behind, inspecting⟩ grammar.primary := by
  intro s a s' h
  unfold primary at h
  rw [get_bind] at h
  cases hnext : s.next? with
  | none =>
      rw [hnext] at h
      cases h
  | some kind =>
      have hkinds := TokenStream.kinds_of_next? hnext
      rw [hnext] at h
      cases kind with
      | number x | text value | truth value =>
          cases h
          rw [hkinds, Context.read_of_ne Token.Kind.noConfusion]
          rfl
      | word w =>
          dsimp only at h
          split at h
          · exact creation_copies inspecting s a s' h
          · split at h
            · next hname =>
                cases h
                rw [hkinds, Context.read_name hname]
                rfl
            · cases h
      | symbol sym =>
          cases sym with
          | leftParen => exact bracketed_copies (hg.expression inspecting) .ahead s a s' h
          | leftBrace | rightBrace | rightParen | comma | operator => cases h

theorem operandStep_copies (hg : grammar.Faithful) (inspecting : Bool) :
    Copies ⟨.ahead, inspecting⟩ ⟨.behind, inspecting⟩ grammar.operandStep := by
  intro s a s' h
  have hahead : (⟨.ahead, inspecting⟩ : Context).place ≠ .behind := Place.noConfusion
  by_cases hminus : s.atSymbol (.operator .sub) = true
  · have hkinds := TokenStream.kinds_of_next? (TokenStream.next?_of_atSymbol hminus)
    by_cases hnumber : ∃ x, s.tail.next? = some (.number x)
    · obtain ⟨x, hnext⟩ := hnumber
      rw [operandStep_of_number hminus hnext] at h
      cases h
      rw [hkinds, TokenStream.kinds_of_next? hnext, Context.read_minus_number hahead]
      rfl
    · have hother : ∀ x, s.tail.next? ≠ some (.number x) := fun x hx => hnumber ⟨x, hx⟩
      rw [operandStep_of_minus hminus hother] at h
      obtain ⟨operand, t, ht, h⟩ := (hg.operand inspecting).bind_ok h
      obtain ⟨rfl, rfl⟩ := pure_ok h
      rw [hkinds, Context.read_minus hahead (by simpa [TokenStream.next?_eq_head?] using hother)]
      simp [ht]
  · rw [operandStep_of_not_minus hminus] at h
    exact primary_copies hg inspecting s a s' h

theorem leaves_calls (first : Phrase) (callees : List Phrase) :
    (callees.foldl (fun argument callee => .group [argument, .keyword .object, callee])
        first).leaves =
      first.leaves ++ callees.flatMap fun callee => .word Keyword.object.text :: callee.leaves := by
  induction callees generalizing first with
  | nil => simp
  | cons callee rest ih =>
      rw [List.foldl_cons, ih]
      simp

theorem expressionStep_copies (hg : grammar.Faithful) (hsound : grammar.Sound)
    (inspecting : Bool) :
    Copies ⟨.ahead, inspecting⟩ ⟨.ahead, inspecting⟩ grammar.expressionStep := by
  have hproducts : Yields (joined .multiplicative grammar.operandStep)
      (@Expression.kinds (.level .multiplicative)) Expression.phrase :=
    joined_yields (operandStep_yields hsound)
  have hsums : Copies ⟨.ahead, inspecting⟩ ⟨.behind, inspecting⟩
      (joined .comparison <| joined .additive <| joined .multiplicative <| grammar.operandStep) :=
    joined_copies _ (joined_copies _ (joined_copies _ (operandStep_copies hg inspecting)))
  have hfirst := hsums.ahead (joined_takesMinus _ (additive_takesMinus hproducts))
  have hcallee : ∀ s a s', (do
      let _ ← keyword .object
      name : Parse Phrase) s = .ok a s' →
      Context.read ⟨.ahead, inspecting⟩ s.kinds =
        .word Keyword.object.text :: a.leaves ++ Context.read ⟨.ahead, inspecting⟩ s'.kinds := by
    intro s a s' h
    obtain ⟨_, t, ht, h⟩ := (keyword_yields .object).bind_ok h
    have hname := name_copies ⟨.naming, inspecting⟩ t a s' h
    rw [ht, List.cons_append, List.nil_append, Context.read_keyword]
    simpa using hname
  intro s a s' h
  unfold expressionStep at h
  obtain ⟨first, t, ht, h⟩ := hfirst.bind_ok h
  obtain ⟨callees, u, hu, h⟩ := bind_ok h
  obtain ⟨rfl, rfl⟩ := pure_ok h
  rw [ht, many_copies hcallee hu, leaves_calls, List.append_assoc]

theorem block_copies (hg : grammar.Faithful) (before : Place) :
    Copies ⟨before, false⟩ ⟨.ahead, false⟩ grammar.block :=
  braced_copies hg.statement before

theorem names_copies (before : Place) :
    Copies ⟨before, false⟩ ⟨.behind, false⟩ (bracketed name) :=
  bracketed_copies (name_copies ⟨.ahead, false⟩) before

theorem functionDeclaration_copies (hg : grammar.Faithful) :
    Copies ⟨.ahead, false⟩ ⟨.ahead, false⟩ grammar.functionDeclaration := by
  intro s a s' h
  obtain ⟨marker, t, ht, h⟩ := (keyword_copies .function ⟨.ahead, false⟩).bind_ok h
  obtain ⟨functionName, u, hu, h⟩ := (name_copies ⟨.ahead, false⟩).bind_ok h
  obtain ⟨params, v, hv, h⟩ := (names_copies .behind).bind_ok h
  obtain ⟨body, w, hw, h⟩ := (block_copies hg .behind).bind_ok h
  obtain ⟨rfl, rfl⟩ := pure_ok h
  simp [ht, hu, hv, hw]

theorem binding_copies (hg : grammar.Faithful) {marker : Keyword}
    (hmarker : Context.afterKeyword ⟨.ahead, false⟩ marker = ⟨.ahead, false⟩) :
    Copies ⟨.ahead, false⟩ ⟨.ahead, false⟩ (grammar.binding marker) := by
  intro s a s' h
  obtain ⟨first, t, ht, h⟩ := (keyword_copies marker ⟨.ahead, false⟩).bind_ok h
  obtain ⟨bound, u, hu, h⟩ := (name_copies ⟨.ahead, false⟩).bind_ok h
  obtain ⟨topic, v, hv, h⟩ := (keyword_copies .topic ⟨.behind, false⟩).bind_ok h
  obtain ⟨value, w, hw, h⟩ := (hg.expression false).bind_ok h
  obtain ⟨rfl, rfl⟩ := pure_ok h
  rw [hmarker] at ht
  simp [ht, hu, hv, hw]

theorem classDeclaration_copies (hg : grammar.Faithful) :
    Copies ⟨.ahead, false⟩ ⟨.ahead, false⟩ grammar.classDeclaration := by
  intro s a s' h
  obtain ⟨marker, t, ht, h⟩ := (keyword_copies .classOf ⟨.ahead, false⟩).bind_ok h
  obtain ⟨className, u, hu, h⟩ := (name_copies ⟨.ahead, false⟩).bind_ok h
  rw [get_bind] at h
  dsimp only at h
  split at h
  · obtain ⟨inherits, v, hv, h⟩ := (keyword_copies .inherits ⟨.behind, false⟩).bind_ok h
    obtain ⟨parent, w, hw, h⟩ := (name_copies ⟨.ahead, false⟩).bind_ok h
    obtain ⟨_, x, hx, h⟩ := bind_ok h
    obtain ⟨rfl, rfl⟩ := pure_ok hx
    obtain ⟨body, y, hy, h⟩ := (block_copies hg .behind).bind_ok h
    obtain ⟨rfl, rfl⟩ := pure_ok h
    simp [ht, hu, hv, hw, hy]
  · obtain ⟨_, x, hx, h⟩ := bind_ok h
    obtain ⟨rfl, rfl⟩ := pure_ok hx
    obtain ⟨body, y, hy, h⟩ := (block_copies hg .behind).bind_ok h
    obtain ⟨rfl, rfl⟩ := pure_ok h
    simp [ht, hu, hy]

/-- The values of an enumeration are read before and behind others, but no minus sign
stands between them. -/
theorem enumDeclaration_copies : Copies ⟨.ahead, false⟩ ⟨.ahead, false⟩ enumDeclaration := by
  have hitem : ∀ s a s' (context : Context), (do
      if (← get).atSymbol .comma then symbol .comma else name : Parse Phrase) s = .ok a s' →
      context = ⟨.ahead, false⟩ ∨ context = ⟨.behind, false⟩ →
      ∃ after : Context, (after = ⟨.ahead, false⟩ ∨ after = ⟨.behind, false⟩) ∧
        context.read s.kinds = a.leaves ++ after.read s'.kinds := by
    intro s a s' context h hcontext
    rw [get_bind] at h
    split at h
    · refine ⟨⟨.ahead, false⟩, .inl rfl, ?_⟩
      rcases hcontext with rfl | rfl <;> exact symbol_copies .comma trivial _ s a s' h
    · refine ⟨⟨.behind, false⟩, .inr rfl, ?_⟩
      rcases hcontext with rfl | rfl <;> exact name_copies _ s a s' h
  intro s a s' h
  obtain ⟨marker, t, ht, h⟩ := (keyword_copies .enumerate ⟨.ahead, false⟩).bind_ok h
  obtain ⟨enumName, u, hu, h⟩ := (name_copies ⟨.ahead, false⟩).bind_ok h
  obtain ⟨opening, v, hv, h⟩ := (symbol_copies .leftBrace trivial ⟨.behind, false⟩).bind_ok h
  obtain ⟨items, w, hw, h⟩ := bind_ok h
  obtain ⟨after, hafter, hitems⟩ := manyUpTo_copies hitem hw (.inl rfl)
  obtain ⟨closing, x, hx, h⟩ := (symbol_copies .rightBrace trivial after).bind_ok h
  obtain ⟨rfl, rfl⟩ := pure_ok h
  have hinspecting : after.inspecting = false := by rcases hafter with rfl | rfl <;> rfl
  simp [ht, hu, hv, hitems, hx, hinspecting]

theorem staticDeclaration_copies (hg : grammar.Faithful) :
    Copies ⟨.ahead, false⟩ ⟨.ahead, false⟩ grammar.staticDeclaration := by
  intro s a s' h
  obtain ⟨marker, t, ht, h⟩ := (keyword_copies .static ⟨.ahead, false⟩).bind_ok h
  obtain ⟨path, u, hu, h⟩ := (name_copies ⟨.ahead, false⟩).bind_ok h
  obtain ⟨body, v, hv, h⟩ := (block_copies hg .behind).bind_ok h
  obtain ⟨rfl, rfl⟩ := pure_ok h
  simp [ht, hu, hv]

theorem attempt_copies (hg : grammar.Faithful) :
    Copies ⟨.ahead, false⟩ ⟨.ahead, false⟩ grammar.attempt := by
  intro s a s' h
  obtain ⟨marker, t, ht, h⟩ := (keyword_copies .attempt ⟨.ahead, false⟩).bind_ok h
  obtain ⟨attempted, u, hu, h⟩ := (block_copies hg .ahead).bind_ok h
  obtain ⟨rescue, v, hv, h⟩ := (keyword_copies .rescue ⟨.ahead, false⟩).bind_ok h
  obtain ⟨caught, w, hw, h⟩ := (names_copies .ahead).bind_ok h
  obtain ⟨rescued, x, hx, h⟩ := (block_copies hg .behind).bind_ok h
  obtain ⟨rfl, rfl⟩ := pure_ok h
  simp [ht, hu, hv, hw, hx]

theorem importing_copies : Copies ⟨.ahead, false⟩ ⟨.ahead, false⟩ importing := by
  intro s a s' h
  obtain ⟨marker, t, ht, h⟩ := (keyword_copies .importing ⟨.ahead, false⟩).bind_ok h
  by_cases htext : ∃ value, t.next? = some (.text value)
  · obtain ⟨value, hnext⟩ := htext
    rw [get_bind, hnext] at h
    cases h
    rw [ht, TokenStream.kinds_of_next? hnext, Context.read_of_ne Token.Kind.noConfusion]
    simp [Context.atoms]
  · have hread : (do
        let moduleName ← name
        return .group [marker, moduleName] : Parse Phrase) t = .ok a s' := by
      rw [← h, get_bind]
      cases hnext : t.next? with
      | none => rfl
      | some kind =>
          cases kind with
          | text value => exact absurd ⟨value, hnext⟩ htext
          | word | number | truth | symbol => rfl
    obtain ⟨moduleName, u, hu, h⟩ := (name_copies ⟨.naming, false⟩).bind_ok hread
    obtain ⟨rfl, rfl⟩ := pure_ok h
    simp [ht, hu]

/-- A type is named where otherwise a value would begin. -/
theorem typeInspection_copies (hg : grammar.Faithful) :
    Copies ⟨.ahead, false⟩ ⟨.ahead, false⟩ grammar.typeInspection := by
  intro s a s' h
  obtain ⟨marker, t, ht, h⟩ := (keyword_copies .inspectType ⟨.ahead, false⟩).bind_ok h
  obtain ⟨value, u, hu, h⟩ := (hg.expression true).bind_ok h
  obtain ⟨topic, v, hv, h⟩ := (keyword_copies .topic ⟨.ahead, true⟩).bind_ok h
  obtain ⟨typeName, w, hw, h⟩ := (name_copies ⟨.naming, false⟩).bind_ok h
  obtain ⟨rfl, rfl⟩ := pure_ok h
  simp [ht, hu, hv, hw]

theorem patternCase_copies (hg : grammar.Faithful) :
    Copies ⟨.ahead, false⟩ ⟨.ahead, false⟩ grammar.patternCase := by
  have hbody {s s' : TokenStream} {a : Phrase} (pattern : List Phrase)
      (h : (do
        let condition ←
          if (← get).atKeyword .provided then do
            let marker ← keyword .provided
            let value ← grammar.expression
            pure [marker, value]
          else
            pure []
        let body ← grammar.block
        return .group (pattern ++ condition ++ [body]) : Parse Phrase) s = .ok a s') :
      pattern.flatMap Phrase.leaves ++ Context.read ⟨.ahead, false⟩ s.kinds =
        a.leaves ++ Context.read ⟨.ahead, false⟩ s'.kinds := by
    rw [get_bind] at h
    dsimp only at h
    split at h
    · obtain ⟨marker, t, ht, h⟩ := (keyword_copies .provided ⟨.ahead, false⟩).bind_ok h
      obtain ⟨guard, u, hu, h⟩ := (hg.expression false).bind_ok h
      obtain ⟨_, v, hv, h⟩ := bind_ok h
      obtain ⟨rfl, rfl⟩ := pure_ok hv
      obtain ⟨body, w, hw, h⟩ := (block_copies hg .ahead).bind_ok h
      obtain ⟨rfl, rfl⟩ := pure_ok h
      simp [ht, hu, hw]
    · obtain ⟨_, v, hv, h⟩ := bind_ok h
      obtain ⟨rfl, rfl⟩ := pure_ok hv
      obtain ⟨body, w, hw, h⟩ := (block_copies hg .ahead).bind_ok h
      obtain ⟨rfl, rfl⟩ := pure_ok h
      simp [hw]
  intro s a s' h
  unfold patternCase at h
  rw [get_bind] at h
  dsimp only at h
  split at h
  · obtain ⟨otherwise, t, ht, h⟩ := (keyword_copies .otherwise ⟨.ahead, false⟩).bind_ok h
    have hrest := hbody [otherwise] h
    rw [ht, ← hrest]
    simp
  · obtain ⟨pattern, t, ht, h⟩ := (hg.expression false).bind_ok h
    obtain ⟨marker, u, hu, h⟩ := (keyword_copies .caseOf ⟨.ahead, false⟩).bind_ok h
    have hrest := hbody [pattern, marker] h
    rw [ht, hu, ← hrest]
    simp

theorem alternative_copies (hg : grammar.Faithful) (condition : Phrase) {s s' : TokenStream}
    {a : Phrase} (h : grammar.alternative condition s = .ok a s') :
    condition.leaves ++ Context.read ⟨.ahead, false⟩ s.kinds =
      a.leaves ++ Context.read ⟨.ahead, false⟩ s'.kinds := by
  obtain ⟨marker, t, ht, h⟩ := (keyword_copies .ifThen ⟨.ahead, false⟩).bind_ok h
  obtain ⟨consequent, u, hu, h⟩ := (block_copies hg .ahead).bind_ok h
  rw [get_bind] at h
  split at h
  · obtain ⟨otherwise, v, hv, h⟩ := (keyword_copies .otherwise ⟨.ahead, false⟩).bind_ok h
    rw [get_bind] at h
    dsimp only at h
    split at h
    · obtain ⟨alternate, w, hw, h⟩ := (block_copies hg .ahead).bind_ok h
      obtain ⟨rfl, rfl⟩ := pure_ok h
      simp [ht, hu, hv, hw]
    · obtain ⟨alternate, w, hw, h⟩ := hg.sentence.bind_ok h
      obtain ⟨rfl, rfl⟩ := pure_ok h
      simp [ht, hu, hv, hw]
  · obtain ⟨rfl, rfl⟩ := pure_ok h
    simp [ht, hu]

theorem sentenceStep_copies (hg : grammar.Faithful) (hsound : grammar.Sound) :
    Copies ⟨.ahead, false⟩ ⟨.ahead, false⟩ grammar.sentenceStep := by
  intro s a s' h
  obtain ⟨subject, t, ht, h⟩ := (expressionStep_copies hg hsound false).bind_ok h
  have hobject := keyword_copies .object ⟨.ahead, false⟩
  rw [get_bind] at h
  split at h
  · split at h
    · obtain ⟨object, u, hu, h⟩ := hobject.bind_ok h
      obtain ⟨marker, v, hv, h⟩ := (keyword_copies .giveBack ⟨.naming, false⟩).bind_ok h
      obtain ⟨rfl, rfl⟩ := pure_ok h
      simp [ht, hu, hv]
    · split at h
      · obtain ⟨object, u, hu, h⟩ := hobject.bind_ok h
        obtain ⟨marker, v, hv, h⟩ := (keyword_copies .throwUp ⟨.naming, false⟩).bind_ok h
        obtain ⟨rfl, rfl⟩ := pure_ok h
        simp [ht, hu, hv]
      · split at h
        · obtain ⟨object, u, hu, h⟩ := hobject.bind_ok h
          obtain ⟨marker, v, hv, h⟩ := (keyword_copies .distinguish ⟨.naming, false⟩).bind_ok h
          obtain ⟨cases, w, hw, h⟩ := (braced_copies (patternCase_copies hg) .ahead).bind_ok h
          obtain ⟨rfl, rfl⟩ := pure_ok h
          simp [ht, hu, hv, hw]
        · cases h
  · split at h
    · rw [ht]
      exact alternative_copies hg subject h
    · split at h
      · obtain ⟨marker, u, hu, h⟩ := (keyword_copies .loop ⟨.ahead, false⟩).bind_ok h
        obtain ⟨body, v, hv, h⟩ := (block_copies hg .ahead).bind_ok h
        obtain ⟨rfl, rfl⟩ := pure_ok h
        simp [ht, hu, hv]
      · obtain ⟨rfl, rfl⟩ := pure_ok h
        exact ht

theorem statementStep_copies (hg : grammar.Faithful) (hsound : grammar.Sound) :
    Copies ⟨.ahead, false⟩ ⟨.ahead, false⟩ grammar.statementStep := by
  intro s a s' h
  unfold statementStep at h
  rw [get_bind] at h
  rcases ite_ok h with h | h
  · exact functionDeclaration_copies hg s a s' h
  rcases ite_ok h with h | h
  · exact binding_copies hg rfl s a s' h
  rcases ite_ok h with h | h
  · exact binding_copies hg rfl s a s' h
  rcases ite_ok h with h | h
  · exact classDeclaration_copies hg s a s' h
  rcases ite_ok h with h | h
  · exact enumDeclaration_copies s a s' h
  rcases ite_ok h with h | h
  · exact staticDeclaration_copies hg s a s' h
  rcases ite_ok h with h | h
  · exact attempt_copies hg s a s' h
  rcases ite_ok h with h | h
  · exact importing_copies s a s' h
  rcases ite_ok h with h | h
  · exact binding_copies hg rfl s a s' h
  rcases ite_ok h with h | h
  · exact typeInspection_copies hg s a s' h
  exact sentenceStep_copies hg hsound s a s' h

theorem ofDepth_faithful (depth : Nat) : (ofDepth depth).Faithful := by
  induction depth with
  | zero =>
      exact
        { statement := fun _ _ _ h => by cases h
          sentence := fun _ _ _ h => by cases h
          expression := fun _ _ _ _ h => by cases h
          operand := fun _ _ _ _ h => by cases h }
  | succ depth ih =>
      have hsound := ofDepth_sound depth
      exact
        { statement := statementStep_copies ih hsound
          sentence := sentenceStep_copies ih hsound
          expression := expressionStep_copies ih hsound
          operand := operandStep_copies ih }

end Grammar

/-- The leaves that the tokens of a whole text make. -/
def Token.leaves (kinds : List Kind) : List Atom :=
  Context.read ⟨.ahead, false⟩ kinds

/-- The phrase of a text has its tokens for leaves. -/
theorem Parse.leaves_of_program {s s' : TokenStream} {phrase : Phrase}
    (h : program s = .ok phrase s') : phrase.leaves = Token.leaves s.kinds := by
  have hstatement := (Grammar.ofDepth_faithful (s.tokens.length + 1)).statement
  obtain ⟨phrases, rfl, hend, hread⟩ := statements_of_program h
  rw [Token.leaves, many_copies hstatement hread, hend]
  simp [Token.Context.read]

end Wabun
