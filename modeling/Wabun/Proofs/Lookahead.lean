import Wabun.Proofs.Reading

/-!
How far a reading looks ahead. At every step it looks at the token where it stands and at
the one behind it, so two streams that agree that far past the place where the reading
ends make it go the same way. This is shown of two readings at once, which may be bounded
in different depths: neither bound is met, as long as it exceeds the number of tokens.
-/

namespace Wabun

open Token (Kind)

/-- A word that no text has and no reading accepts, so that it can mark an end. -/
def Token.Kind.mark : Kind := .word ""

theorem Token.Kind.keyword_ne_mark (k : Keyword) : Kind.keyword k ≠ mark := by
  cases k <;> simp [Kind.keyword, mark, Keyword.text]

theorem Token.Kind.name_ne_mark {w : String} (h : Word.isName w = true) : Kind.word w ≠ mark := by
  rintro ⟨⟩
  exact absurd h (by decide)

namespace TokenStream

/-- What can be seen on a stream: every token with its place, and then the end of the text. -/
def sights (stream : TokenStream) : List (Option Kind × Position) :=
  stream.tokens.map (fun token => (some token.kind, token.place)) ++ [(none, stream.stop)]

/-- The stream behind so many tokens. -/
def skip (stream : TokenStream) (count : Nat) : TokenStream :=
  { stream with tokens := stream.tokens.drop count }

/-- Two streams look alike up to a number of tokens, where the end counts as one. -/
def AgreeOn (count : Nat) (stream other : TokenStream) : Prop :=
  stream.sights.take count = other.sights.take count

variable {stream other : TokenStream} {count more : Nat}

theorem skip_one {kind : Kind} (h : stream.next? = some kind) : stream.skip 1 = stream.tail := by
  have hsome : stream.tokens.isEmpty = false := by
    cases htokens : stream.tokens with
    | nil => simp [next?, htokens] at h
    | cons token rest => rfl
  rw [skip, tail, List.drop_one, hsome, Bool.or_false]

theorem next?_skip_one (stream : TokenStream) : (stream.skip 1).next? = stream.tail.next? := by
  rw [skip, List.drop_one]
  rfl

theorem skip_skip (stream : TokenStream) (count more : Nat) :
    (stream.skip count).skip more = stream.skip (count + more) := by
  simp only [skip, List.drop_drop]

theorem length_skip (stream : TokenStream) (count : Nat) :
    (stream.skip count).tokens.length = stream.tokens.length - count :=
  List.length_drop

theorem skip_inj (hcount : count ≤ stream.tokens.length) (hmore : more ≤ stream.tokens.length)
    (h : stream.skip count = stream.skip more) : count = more := by
  have hlength := congrArg (fun rest => rest.tokens.length) h
  simp only [length_skip] at hlength
  omega

theorem length_sights (stream : TokenStream) :
    stream.sights.length = stream.tokens.length + 1 := by
  simp [sights]

theorem sights_skip (h : count ≤ stream.tokens.length) :
    (stream.skip count).sights = stream.sights.drop count := by
  rw [sights, sights, List.drop_append_of_le_length (by simpa using h), ← List.map_drop]
  rfl

theorem sights_head? (stream : TokenStream) :
    stream.sights.head? = some (stream.next?, stream.place) := by
  cases htokens : stream.tokens with
  | nil => simp [sights, next?, place, htokens]
  | cons token rest => simp [sights, next?, place, htokens]

/-- Only the end looks like the end. -/
theorem isSome_iff_of_getElem?_sights {index : Nat} {sight : Option Kind × Position}
    (h : stream.sights[index]? = some sight) :
    sight.1.isSome = true ↔ index < stream.tokens.length := by
  by_cases hindex : index < stream.tokens.length
  · rw [sights, List.getElem?_append_left (by simpa using hindex), List.getElem?_map] at h
    obtain ⟨token, _, rfl⟩ := Option.map_eq_some_iff.mp h
    simp [hindex]
  · rw [sights, List.getElem?_append_right (by simpa using hindex)] at h
    have hlast : sight = (none, stream.stop) := by
      have hmem := List.mem_of_getElem? h
      simpa using hmem
    simp [hindex, hlast]

namespace AgreeOn

theorem refl (count : Nat) (stream : TokenStream) : AgreeOn count stream stream := rfl

theorem mono (hle : more ≤ count) (h : AgreeOn count stream other) : AgreeOn more stream other := by
  have htake := congrArg (List.take more) h
  rwa [List.take_take, List.take_take, Nat.min_eq_left hle] at htake

/-- Of two streams that agree on more tokens than one of them has taken off, the other one
has as many to take off, and what is left of them agrees. -/
theorem skip (hcount : count ≤ stream.tokens.length)
    (h : AgreeOn (count + (more + 1)) stream other) :
    count ≤ other.tokens.length ∧ AgreeOn (more + 1) (stream.skip count) (other.skip count) := by
  have hget (index : Nat) (hindex : index < count + (more + 1)) :
      stream.sights[index]? = other.sights[index]? := by
    rw [← List.getElem?_take_of_lt hindex, h, List.getElem?_take_of_lt hindex]
  have hother : count ≤ other.tokens.length := by
    refine Nat.le_of_not_lt fun hshort => ?_
    have hlast : other.tokens.length < other.sights.length := by
      rw [length_sights]
      exact Nat.lt_succ_self _
    have hend := List.getElem?_eq_getElem hlast
    have hmine := (hget other.tokens.length (by omega)).trans hend
    have hsome := (isSome_iff_of_getElem?_sights hmine).mpr (by omega)
    exact Nat.lt_irrefl _ ((isSome_iff_of_getElem?_sights hend).mp hsome)
  refine ⟨hother, ?_⟩
  have hdrop := congrArg (List.drop count) h
  rwa [List.drop_take, List.drop_take, Nat.add_sub_cancel_left, ← sights_skip hcount,
    ← sights_skip hother] at hdrop

theorem head_eq (h : AgreeOn (count + 1) stream other) :
    stream.next? = other.next? ∧ stream.place = other.place := by
  have hhead := congrArg List.head? h
  rw [List.head?_take, List.head?_take, if_neg (Nat.succ_ne_zero _), if_neg (Nat.succ_ne_zero _),
    sights_head?, sights_head?] at hhead
  exact Prod.mk.inj (Option.some.inj hhead)

theorem tail (h : AgreeOn 2 stream other) : stream.tail.next? = other.tail.next? := by
  cases htokens : stream.tokens with
  | nil =>
      have hnext := h.head_eq.1
      have hother : other.tokens = [] := by
        rw [next?, next?, htokens] at hnext
        simpa using hnext.symm
      simp [next?, TokenStream.tail, htokens, hother]
  | cons token rest =>
      have hlength : 1 ≤ stream.tokens.length := by
        rw [htokens]
        exact Nat.succ_le_succ (Nat.zero_le _)
      have htail := (skip hlength (show AgreeOn (1 + (0 + 1)) stream other from h)).2.head_eq.1
      rwa [next?_skip_one, next?_skip_one] at htail

end AgreeOn

/-- A test that looks at two tokens at most. -/
def Sighted {β : Type} (test : TokenStream → β) : Prop :=
  ∀ stream other, AgreeOn 2 stream other → test stream = test other

theorem sighted_next? : Sighted next? := fun _ _ h => h.head_eq.1

theorem sighted_place : Sighted place := fun _ _ h => h.head_eq.2

theorem sighted_atEnd : Sighted atEnd := by
  intro stream other h
  have hempty (stream : TokenStream) : stream.atEnd = stream.next?.isNone := by
    cases htokens : stream.tokens <;> simp [atEnd, next?, htokens]
  rw [hempty, hempty, sighted_next? _ _ h]

theorem sighted_atKeyword (k : Keyword) : Sighted fun stream => stream.atKeyword k := by
  intro stream other h
  simp only [atKeyword, sighted_next? _ _ h]

theorem sighted_tail_atKeyword (k : Keyword) : Sighted fun stream => stream.tail.atKeyword k := by
  intro stream other h
  simp only [atKeyword, h.tail]

theorem sighted_atSymbol (s : Symbol) : Sighted fun stream => stream.atSymbol s := by
  intro stream other h
  simp only [atSymbol, sighted_next? _ _ h]

theorem sighted_operator? (level : Operator.Level) :
    Sighted fun stream => stream.operator? level := by
  intro stream other h
  simp only [operator?, sighted_next? _ _ h]

theorem sighted_name? : Sighted name? := by
  intro stream other h
  simp only [name?, sighted_next? _ _ h]

theorem sighted_callee? : Sighted callee? := by
  intro stream other h
  simp only [callee?, name?, sighted_atKeyword _ _ _ h, h.tail]

end TokenStream

/-- What a reading comes to, and the stream that it leaves. -/
abbrev Ending (α : Type) := EStateM.Result (Located GrammarFault) TokenStream α

namespace Ending

variable {α : Type}

def rest : Ending α → TokenStream
  | .ok _ stream => stream
  | .error _ stream => stream

def isOk : Ending α → Bool
  | .ok _ _ => true
  | .error _ _ => false

/-- The same ending on another stream. -/
def moveTo (stream : TokenStream) : Ending α → Ending α
  | .ok a _ => .ok a stream
  | .error located _ => .error located stream

end Ending

namespace Parse

open TokenStream

variable {α β : Type} {least least' n n' m m' : Nat} {p q : Parse α} {s s' : TokenStream}

/-- With this ending a reading has taken so many tokens off, and at least as many as said if
it has succeeded. None of them is the mark of an end. -/
structure Takes (least taken : Nat) (s : TokenStream) (ending : Ending α) : Prop where
  within : taken ≤ s.tokens.length
  rest : ending.rest = s.skip taken
  enough : ending.isOk = true → least ≤ taken
  unmarked : ∀ token ∈ s.tokens.take taken, token.kind ≠ .mark

/-- A reading on one stream and a reading on another one. The second has the same ending as
the first, if its stream is short enough and agrees with the other one on the tokens that the
first takes and two more. -/
def InStep (least bound : Nat) (p q : Parse α) (s s' : TokenStream) : Prop :=
  ∃ taken, Takes least taken s (p s) ∧
    (s'.tokens.length < bound → AgreeOn (taken + 2) s s' →
      q s' = Ending.moveTo (s'.skip taken) (p s))

/-- The readings are in step on all streams of fewer tokens than the bounds. -/
def Lockstep (least n n' : Nat) (p q : Parse α) : Prop :=
  ∀ s s', s.tokens.length < n → AgreeOn 2 s s' → InStep least n' p q s s'

namespace Takes

variable {taken taken' : Nat} {ending : Ending α}

theorem unique (h : Takes least taken s ending) (h' : Takes least' taken' s ending) :
    taken = taken' :=
  skip_inj h.within h'.within (h.rest.symm.trans h'.rest)

theorem none (h : ending.rest = s) : Takes 0 0 s ending where
  within := Nat.zero_le _
  rest := h
  enough _ := Nat.le_refl _
  unmarked := by simp

theorem one {kind : Kind} (hnext : s.next? = some kind) (hmark : kind ≠ .mark) :
    Takes 1 1 s (advance s) := by
  cases htokens : s.tokens with
  | nil => simp [next?, htokens] at hnext
  | cons token rest =>
      refine ⟨?_, ?_, fun _ => Nat.le_refl _, ?_⟩
      · simp [htokens]
      · rw [skip_one hnext]
        rfl
      · obtain rfl : token.kind = kind := by simpa [next?, htokens] using hnext
        simpa [htokens] using hmark

theorem error {located : Located GrammarFault} {t : TokenStream}
    (h : Takes least taken s (.error located t : Ending α)) :
    Takes least' taken s (.error located t : Ending β) :=
  ⟨h.within, h.rest, fun hok => absurd hok Bool.false_ne_true, h.unmarked⟩

/-- Of two readings one after the other, the second begins behind what the first has taken. -/
theorem trans {a : α} {t : TokenStream} {later : Ending β}
    (h : Takes least taken s (.ok a t : Ending α)) (hlater : Takes least' taken' t later) :
    Takes (least + least') (taken + taken') s later := by
  obtain rfl : t = s.skip taken := h.rest
  have hwithin := h.within
  have hwithin' := hlater.within
  rw [length_skip] at hwithin'
  refine ⟨by omega, ?_, fun hok => Nat.add_le_add (h.enough rfl) (hlater.enough hok),
    fun token hmem => ?_⟩
  · rw [hlater.rest, skip_skip]
  · rw [List.take_add, List.mem_append] at hmem
    rcases hmem with hfirst | hsecond
    · exact h.unmarked token hfirst
    · exact hlater.unmarked token hsecond

end Takes

namespace InStep

theorem mono (hleast : least' ≤ least) (hbound : s'.tokens.length < m' → s'.tokens.length < n')
    (h : InStep least n' p q s s') : InStep least' m' p q s s' := by
  obtain ⟨taken, htakes, hfollow⟩ := h
  refine ⟨taken, ?_, fun hs' => hfollow (hbound hs')⟩
  exact { htakes with enough := fun hok => Nat.le_trans hleast (htakes.enough hok) }

/-- Whatever is taken, it is not less than nothing. -/
theorem loose (h : InStep least n' p q s s') : InStep 0 n' p q s s' :=
  h.mono (Nat.zero_le _) id

/-- Nothing is asked of the second reading if no stream is short enough. -/
theorem zero (h : InStep least n' p q s s') (q' : Parse α) : InStep least 0 p q' s s' := by
  obtain ⟨taken, htakes, _⟩ := h
  exact ⟨taken, htakes, fun hs' => absurd hs' (Nat.not_lt_zero _)⟩

theorem pure (a : α) : InStep 0 n' (Pure.pure a : Parse α) (Pure.pure a) s s' :=
  ⟨0, .none rfl, fun _ _ => rfl⟩

theorem unexpected (expected : Expectation) :
    InStep least n' (Parse.unexpected expected : Parse α) (Parse.unexpected expected) s s' := by
  have htakes : Takes 0 0 s (Parse.unexpected expected s : Ending α) := .none rfl
  refine ⟨0, htakes.error, fun _ hagree => ?_⟩
  rw [Parse.unexpected, ← sighted_next? _ _ hagree, ← sighted_place _ _ hagree]
  rfl

theorem ite {c c' : Bool} {x y : Parse α} (hc : c = c') (hp : c = true → InStep least n' p q s s')
    (hx : c = false → InStep least n' x y s s') :
    InStep least n' (if c then p else x) (if c' then q else y) s s' := by
  subst hc
  cases c with
  | true => exact hp rfl
  | false => exact hx rfl

theorem bind {f g : α → Parse β} (hs : s.tokens.length < n) (hp : InStep least n' p q s s')
    (hf : ∀ a, Lockstep least' (n - least) (n' - least) (f a) (g a)) :
    InStep (least + least') n' (p >>= f) (q >>= g) s s' := by
  have hrun (p : Parse α) (f : α → Parse β) (s : TokenStream) :
      (p >>= f) s = EStateM.bind p f s := rfl
  obtain ⟨taken, htakes, hfollow⟩ := hp
  rw [InStep, hrun, hrun, EStateM.bind, EStateM.bind]
  cases hfirst : p s with
  | error located t =>
      rw [hfirst] at htakes hfollow
      refine ⟨taken, htakes.error, fun hs' hagree => ?_⟩
      rw [hfollow hs' hagree]
      rfl
  | ok a t =>
      rw [hfirst] at htakes hfollow
      have hwithin := htakes.within
      have henough : least ≤ taken := htakes.enough rfl
      obtain rfl : t = s.skip taken := htakes.rest
      have hlater : (s.skip taken).tokens.length < n - least := by
        rw [length_skip]
        omega
      -- How much the second reading takes is known without the other stream.
      obtain ⟨further, htakes', _⟩ := hf a _ _ hlater (.refl 2 _)
      refine ⟨taken + further, htakes.trans htakes', fun hs' hagree => ?_⟩
      obtain ⟨hwithin', hagree'⟩ := AgreeOn.skip hwithin
        (show AgreeOn (taken + (further + 1 + 1)) s s' from hagree.mono (by omega))
      have hlater' : (s'.skip taken).tokens.length < n' - least := by
        rw [length_skip]
        omega
      obtain ⟨further', htakes'', hfollow'⟩ := hf a _ _ hlater (hagree'.mono (by omega))
      obtain rfl := htakes'.unique htakes''
      rw [hfollow hs' (hagree.mono (by omega)), ← skip_skip]
      exact hfollow' hlater' hagree'

/-- A token that is there is taken, and what follows begins behind it. -/
theorem advance_bind {kind : Kind} {f g : Unit → Parse β} (hs : s.tokens.length < n)
    (hnext : s.next? = some kind) (hmark : kind ≠ .mark)
    (hf : Lockstep 0 (n - 1) (n' - 1) (f ()) (g ())) :
    InStep 1 n' (Parse.advance >>= f) (Parse.advance >>= g) s s' := by
  have hadvance : InStep 1 n' Parse.advance Parse.advance s s' := by
    refine ⟨1, .one hnext hmark, fun _ hagree => ?_⟩
    rw [skip_one ((sighted_next? _ _ (hagree.mono (by omega))).symm.trans hnext)]
    rfl
  exact hadvance.bind hs fun _ => hf

theorem take {kind : Kind} (a : α) (hs : s.tokens.length < n) (hnext : s.next? = some kind)
    (hmark : kind ≠ .mark) :
    InStep 1 n' (do Parse.advance; return a : Parse α) (do Parse.advance; return a) s s' :=
  advance_bind hs hnext hmark fun _ _ _ _ => pure a

end InStep

namespace Lockstep

theorem mono (hleast : least' ≤ least) (hfirst : m ≤ n) (hsecond : m' ≤ n')
    (h : Lockstep least n n' p q) : Lockstep least' m m' p q := fun s s' hs hagree =>
  (h s s' (Nat.lt_of_lt_of_le hs hfirst) hagree).mono hleast
    fun hs' => Nat.lt_of_lt_of_le hs' hsecond

theorem loose (h : Lockstep least n n' p q) : Lockstep 0 n n' p q :=
  fun s s' hs hagree => (h s s' hs hagree).loose

theorem zero (h : Lockstep least n n' p q) (q' : Parse α) : Lockstep least n 0 p q' :=
  fun s s' hs hagree => (h s s' hs hagree).zero q'

theorem pure (a : α) : Lockstep 0 n n' (Pure.pure a : Parse α) (Pure.pure a) :=
  fun _ _ _ _ => .pure a

theorem unexpected (expected : Expectation) :
    Lockstep least n n' (Parse.unexpected expected : Parse α) (Parse.unexpected expected) :=
  fun _ _ _ _ => .unexpected expected

/-- A reading that looks at the stream first. -/
theorem get {f g : TokenStream → Parse α}
    (h : ∀ s s', s.tokens.length < n → AgreeOn 2 s s' → InStep least n' (f s) (g s') s s') :
    Lockstep least n n' (MonadState.get >>= f) (MonadState.get >>= g) :=
  fun s s' hs hagree => h s s' hs hagree

/-- The readings of a second part, on what the first part leaves of the stream. -/
theorem bind {f g : α → Parse β} (hp : Lockstep least n n' p q)
    (hf : ∀ a, Lockstep 0 n n' (f a) (g a)) : Lockstep least n n' (p >>= f) (q >>= g) :=
  fun s s' hs hagree => (hp s s' hs hagree).bind hs fun a =>
    (hf a).mono (Nat.le_refl _) (Nat.sub_le _ _) (Nat.sub_le _ _)

/-- Behind the first token of a phrase the streams are shorter. -/
theorem inside {f g : α → Parse β} (hp : Lockstep 1 (n + 1) (n' + 1) p q)
    (hf : ∀ a, Lockstep 0 n n' (f a) (g a)) :
    Lockstep 1 (n + 1) (n' + 1) (p >>= f) (q >>= g) :=
  fun s s' hs hagree => (hp s s' hs hagree).bind hs hf

theorem ite {test : TokenStream → Bool} {x y : Parse α} (htest : Sighted test)
    (hp : Lockstep least n n' p q) (hx : Lockstep least n n' x y) :
    Lockstep least n n' (do if test (← MonadState.get) then p else x)
      (do if test (← MonadState.get) then q else y) :=
  get fun s s' hs hagree => .ite (htest s s' hagree) (fun _ => hp s s' hs hagree)
    fun _ => hx s s' hs hagree

theorem keyword (k : Keyword) : Lockstep 1 n n' (Parse.keyword k) (Parse.keyword k) :=
  get fun s s' hs hagree => .ite (sighted_atKeyword k s s' hagree)
    (fun hseen => .take _ hs (next?_of_atKeyword hseen) (Kind.keyword_ne_mark k))
    fun _ => .unexpected _

theorem symbol (sym : Symbol) : Lockstep 1 n n' (Parse.symbol sym) (Parse.symbol sym) :=
  get fun s s' hs hagree => .ite (sighted_atSymbol sym s s' hagree)
    (fun hseen => .take _ hs (next?_of_atSymbol hseen) (by simp [Kind.mark])) fun _ => .unexpected _

theorem name : Lockstep 1 n n' Parse.name Parse.name := by
  refine get fun s s' hs hagree => ?_
  rw [← sighted_name? _ _ hagree]
  cases hname : s.name? with
  | none => exact .unexpected _
  | some w =>
      obtain ⟨hnext, hisName⟩ := next?_of_name? hname
      exact .take _ hs hnext (Kind.name_ne_mark hisName)

/-- A repetition stops at its test. It never comes to its bound, since every round takes a
token. -/
theorem manyUpTo {more : TokenStream → Bool} (hmore : Sighted more) (hp : Lockstep 1 n n' p q)
    (bound bound' : Nat) :
    Lockstep 0 (min n bound) (min n' bound') (Parse.manyUpTo more p bound)
      (Parse.manyUpTo more q bound') := by
  induction bound generalizing bound' with
  | zero =>
      intro s s' hs
      omega
  | succ bound ih =>
      have hround (bound' : Nat) : Lockstep 0 (min n (bound + 1)) (min n' (bound' + 1))
          (Parse.manyUpTo more p (bound + 1)) (Parse.manyUpTo more q (bound' + 1)) := by
        refine .ite hmore (fun s s' hs hagree => ?_) (pure _)
        have hitem : InStep 1 (min n' (bound' + 1)) p q s s' :=
          (hp s s' (by omega) hagree).mono (Nat.le_refl _) (by omega)
        have hrest : Lockstep 0 (min n (bound + 1) - 1) (min n' (bound' + 1) - 1)
            (Parse.manyUpTo more p bound) (Parse.manyUpTo more q bound') :=
          (ih bound').mono (Nat.le_refl _) (by omega) (by omega)
        exact (hitem.bind hs fun _ => hrest.bind fun _ => pure _).loose
      cases bound' with
      | zero =>
          exact ((hround 0).zero _).mono (Nat.le_refl _) (Nat.le_refl _) (Nat.min_le_right _ _)
      | succ bound' => exact hround bound'

theorem many {more : TokenStream → Bool} (hmore : Sighted more) (hp : Lockstep 1 n n' p q) :
    Lockstep 0 n n' (Parse.many more p) (Parse.many more q) := by
  refine get fun s s' hs hagree => ?_
  exact (manyUpTo hmore hp (s.tokens.length + 1) (s'.tokens.length + 1) s s' (by omega)
    hagree).mono (Nat.le_refl _) (by omega)

theorem bracketed {item item' : Parse Phrase} (h : Lockstep 1 n n' item item') :
    Lockstep 1 (n + 1) (n' + 1) (Parse.bracketed item) (Parse.bracketed item') := by
  have hclose (opening : Phrase) (items : List Phrase) : Lockstep 0 n n'
      (do
        let closing ← Parse.symbol .rightParen
        return .group (opening :: items ++ [closing]) : Parse Phrase)
      (do
        let closing ← Parse.symbol .rightParen
        return .group (opening :: items ++ [closing]) : Parse Phrase) :=
    ((symbol _).bind fun _ => pure _).loose
  refine (symbol _).inside fun opening => ite (sighted_atSymbol _) (hclose opening _) ?_
  refine h.loose.bind fun _ => ?_
  refine (many (sighted_atSymbol _) ?_).bind fun _ => hclose opening _
  exact (symbol _).bind fun _ => h.loose.bind fun _ => pure _

theorem braced {item item' : Parse Phrase} (h : Lockstep 1 n n' item item') :
    Lockstep 1 (n + 1) (n' + 1) (Parse.braced item) (Parse.braced item') := by
  refine (symbol _).inside fun _ => (many ?_ ?_).bind fun _ => ?_
  · intro s s' hagree
    simp only [sighted_atSymbol _ _ _ hagree]
  · exact ite sighted_atEnd (unexpected _) h
  · exact ((symbol _).bind fun _ => pure _).loose

theorem joint (level : Operator.Level) {operand operand' : Parse Phrase}
    (h : Lockstep 1 n n' operand operand') :
    Lockstep 1 n n' (Parse.joint level operand) (Parse.joint level operand') := by
  refine get fun s s' hs hagree => ?_
  have hsame : s.operator? level = s'.operator? level := sighted_operator? level _ _ hagree
  rw [← hsame]
  cases hoperator : s.operator? level with
  | none => exact .unexpected _
  | some op =>
      refine .advance_bind hs (next?_of_operator? hoperator).1 (by simp [Kind.mark]) ?_
      exact (h.loose.bind fun _ => pure _).mono (Nat.le_refl _) (Nat.sub_le _ _) (Nat.sub_le _ _)

theorem joined (level : Operator.Level) {operand operand' : Parse Phrase}
    (h : Lockstep 1 n n' operand operand') :
    Lockstep 1 n n' (Parse.joined level operand) (Parse.joined level operand') := by
  refine h.bind fun _ => (many ?_ (h.joint level)).bind fun _ => pure _
  intro s s' hagree
  simp only [sighted_operator? _ _ _ hagree]

end Lockstep

end Parse

end Wabun
