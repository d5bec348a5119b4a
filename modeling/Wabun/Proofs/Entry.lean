import Wabun.Proofs.Fuel
import Wabun.Proofs.Misplacement
import Wabun.Session

/-!
Interactive entries and scripts. An entry runs its statements one by one, a script runs
them as a whole and stops at the first that returns. Up to that statement both do the same;
there the script is at its end, and the entry goes on with the statements behind it.
-/

namespace Wabun

/-- What a program gives that ends so. -/
def Flow.result : Flow → Option Value
  | normal => none
  | returned value => some value

namespace Run

variable {host : Host} {scope : ScopeRef} {state middle final : State} {node : Node}
  {before rest body : List Node} {value : Value} {fault : Fault}

section Script

theorem exists_plenty_eq : ∃ fuel, plenty = fuel + 1 :=
  Nat.exists_eq_succ_of_ne_zero (by decide)

theorem statements_eq {fuel : Nat} (hfuel : plenty = fuel + 1) (host : Host) (body : List Node)
    (scope : ScopeRef) : statements host body scope =
      (Engine.ofFuel host fuel).executeStep host fuel body scope >>= fun flow =>
        pure flow.result := by
  rw [statements, hfuel]
  congr 1
  funext flow
  cases flow with
  | normal => rfl
  | returned value => rfl

/-- A script is its first statement, and then the others if this one does not return. -/
theorem statements_cons (host : Host) (node : Node) (rest : List Node) (scope : ScopeRef) :
    statements host (node :: rest) scope = statements host [node] scope >>= fun result =>
      result.elim (statements host rest scope) fun value => pure (some value) := by
  obtain ⟨fuel, hfuel⟩ := exists_plenty_eq
  rw [statements_eq hfuel host (node :: rest), statements_eq hfuel host [node],
    statements_eq hfuel host rest, Engine.executeStep, Engine.executeStep, bind_assoc, bind_assoc,
    bind_assoc]
  congr 1
  funext flow
  cases flow with
  | normal => rfl
  | returned value => rfl

theorem statements_nil (host : Host) (scope : ScopeRef) (state : State) :
    statements host [] scope state = .ok none state := by
  obtain ⟨fuel, hfuel⟩ := exists_plenty_eq
  rw [statements_eq hfuel]
  rfl

theorem statements_cons_of_normal (h : statements host [node] scope state = .ok none middle) :
    statements host (node :: rest) scope state = statements host rest scope middle := by
  rw [statements_cons, bind_of_ok h]
  rfl

theorem statements_cons_of_returned
    (h : statements host [node] scope state = .ok (some value) middle) :
    statements host (node :: rest) scope state = .ok (some value) middle := by
  rw [statements_cons, bind_of_ok h]
  rfl

theorem statements_cons_of_error {halt : Halt}
    (h : statements host [node] scope state = .error halt middle) :
    statements host (node :: rest) scope state = .error halt middle := by
  rw [statements_cons, bind_of_error h]

/-- A script runs all its statements, or it ends as the one at which it stops. -/
theorem statements_cases (host : Host) (body : List Node) (scope : ScopeRef) (state : State) :
    (∃ final, statements host body scope state = .ok none final) ∨
    ∃ before last rest middle, body = before ++ last :: rest ∧
      statements host before scope state = .ok none middle ∧
      statements host [last] scope middle = statements host body scope state := by
  induction body generalizing state with
  | nil => exact .inl ⟨state, statements_nil host scope state⟩
  | cons node others ih =>
      cases hnode : statements host [node] scope state with
      | ok result middle =>
          cases result with
          | none =>
              rw [statements_cons_of_normal hnode]
              rcases ih middle with hnormal | ⟨before, last, rest, reached, rfl, hbefore, hlast⟩
              · exact .inl hnormal
              · refine .inr ⟨node :: before, last, rest, reached, rfl, ?_, hlast⟩
                rw [statements_cons_of_normal hnode, hbefore]
          | some value =>
              refine .inr ⟨[], node, others, state, rfl, statements_nil host scope state, ?_⟩
              rw [hnode, statements_cons_of_returned hnode]
      | error halt middle =>
          refine .inr ⟨[], node, others, state, rfl, statements_nil host scope state, ?_⟩
          rw [hnode, statements_cons_of_error hnode]

end Script

section Entry

/-- What an entry does with one of its statements. -/
def entryStatement (host : Host) (scope : ScopeRef) (statement : Node) : Run (Option Value) :=
  if isExpression statement then do
    let value ← expression host statement scope
    return some value
  else
    statements host [statement] scope

/-- What is left to do of an entry that has come to a result so far. -/
def entryFrom (host : Host) (scope : ScopeRef) (body : List Node) (result : Option Value) :
    Run (Option Value) :=
  body.foldlM (fun _ statement => entryStatement host scope statement) result

theorem entry_eq_entryFrom (host : Host) (node : Node) (scope : ScopeRef) :
    entry host node scope = entryFrom host scope node.statements none :=
  rfl

theorem entryFrom_cons (node : Node) (rest : List Node) (result : Option Value) :
    entryFrom host scope (node :: rest) result =
      entryStatement host scope node >>= entryFrom host scope rest :=
  rfl

/-- How a statement ends in an entry, by how it ends in a script. -/
inductive Follows : EStateM.Result Halt State (Option Value) →
    EStateM.Result Halt State (Option Value) → Prop
  | normal {result final} : Follows (.ok none final) (.ok result final)
  | same (outcome) : Follows outcome outcome
  | outOfFuel {final outcome} : Follows (.error .outOfFuel final) outcome

namespace Follows

variable {outcome : EStateM.Result Halt State (Option Value)}

theorem of_normal (h : Follows (.ok none final) outcome) : ∃ result, outcome = .ok result final := by
  cases h with
  | normal => exact ⟨_, rfl⟩
  | same => exact ⟨none, rfl⟩

theorem of_returned (h : Follows (.ok (some value) final) outcome) :
    outcome = .ok (some value) final := by
  cases h with
  | same => rfl

theorem of_fault (h : Follows (.error (.fault fault) final) outcome) :
    outcome = .error (.fault fault) final := by
  cases h with
  | same => rfl

end Follows

/-- Statements that an entry evaluates give a value to it and none to a script. -/
theorem statements_of_isExpression {fuel : Nat} (hfuel : plenty = fuel + 1)
    (hbare : node.isBare = false) (hexpression : isExpression node = true) :
    statements host [node] scope =
      (Engine.ofFuel host fuel).evaluate node scope >>= fun _ => pure none := by
  have hstatement : (Engine.ofFuel host fuel).statement host fuel node scope =
      (Engine.ofFuel host fuel).evaluate node scope >>= fun _ => pure .normal := by
    cases node with
    | call _ _ | create _ => rfl
    | literal _ | identifier _ | binary _ _ _ => cases hbare
    | _ => cases hexpression
  rw [statements_eq hfuel, Engine.executeStep, hstatement, bind_assoc, bind_assoc]
  rfl

/-- A script evaluates an expression with less fuel, and this makes no difference unless
the fuel does not suffice. -/
theorem entryStatement_follows (hbare : node.isBare = false) (host : Host) (scope : ScopeRef)
    (state : State) :
    Follows (statements host [node] scope state) (entryStatement host scope node state) := by
  by_cases hexpression : isExpression node = true
  · obtain ⟨fuel, hfuel⟩ := exists_plenty_eq
    have hagrees := (Engine.ofFuel_agrees host (Nat.le_succ fuel)).evaluate node scope state
    rw [entryStatement, if_pos hexpression, expression, hfuel,
      statements_of_isExpression hfuel hbare hexpression]
    rcases hagrees with hhalts | hsame
    · obtain ⟨halt, final, hrun, hway⟩ := exists_of_haltsBy hhalts
      cases halt with
      | fault fault => cases hway
      | outOfFuel =>
          rw [bind_of_error hrun]
          exact .outOfFuel
    · cases hrun : (Engine.ofFuel host fuel).evaluate node scope state with
      | ok value final =>
          rw [bind_of_ok hrun, bind_of_ok (hsame.trans hrun)]
          exact .normal
      | error halt final =>
          rw [bind_of_error hrun, bind_of_error (hsame.trans hrun)]
          exact .same _
  · rw [entryStatement, if_neg hexpression]
    exact .same _

/-- An entry comes as far as a script of which no statement returns. -/
theorem entryFrom_append (hbare : ∀ statement ∈ before, statement.isBare = false)
    (h : statements host before scope state = .ok none middle) (result : Option Value) :
    ∃ result', entryFrom host scope (before ++ rest) result state =
      entryFrom host scope rest result' middle := by
  induction before generalizing state result with
  | nil =>
      rw [statements_nil] at h
      cases h
      exact ⟨result, rfl⟩
  | cons node others ih =>
      obtain ⟨hnode, hothers⟩ := List.forall_mem_cons.mp hbare
      rw [List.cons_append, entryFrom_cons]
      cases hrun : statements host [node] scope state with
      | error halt reached =>
          rw [statements_cons_of_error hrun] at h
          cases h
      | ok returned reached =>
          cases returned with
          | some value =>
              rw [statements_cons_of_returned hrun] at h
              cases h
          | none =>
              rw [statements_cons_of_normal hrun] at h
              have hfollows := entryStatement_follows hnode host scope state
              rw [hrun] at hfollows
              obtain ⟨given, hgiven⟩ := hfollows.of_normal
              rw [bind_of_ok hgiven]
              exact ih hothers h given

theorem entryFrom_of_normal (hbare : ∀ statement ∈ body, statement.isBare = false)
    (h : statements host body scope state = .ok none final) (result : Option Value) :
    ∃ result', entryFrom host scope body result state = .ok result' final := by
  have hall : ∃ result', entryFrom host scope (body ++ []) result state =
      entryFrom host scope [] result' final := entryFrom_append hbare h result
  rwa [List.append_nil] at hall

theorem entryFrom_of_stop {last : Node}
    (hbare : ∀ statement ∈ before ++ last :: rest, statement.isBare = false)
    (h : statements host before scope state = .ok none middle) (result : Option Value) :
    entryFrom host scope (before ++ last :: rest) result state =
      (entryStatement host scope last >>= entryFrom host scope rest) middle := by
  obtain ⟨_, hrest⟩ := entryFrom_append (fun statement hmem =>
    hbare statement (List.mem_append_left _ hmem)) h result
  exact hrest

/-- The result so far is lost as soon as one more statement is run. -/
theorem entryFrom_eq_entry (h : body ≠ []) (result : Option Value) :
    entryFrom host scope body result = entry host (.program body) scope := by
  cases body with
  | nil => exact absurd rfl h
  | cons node rest => rfl

/-- An entry without bare expressions does what the script does, as long as no statement
returns: it ends as the script ends, with the same state. Where the script ends because
a statement returns, the entry goes on with the statements behind it, as an entry of their
own. -/
theorem entry_follows_program (host : Host) (node : Node) (scope : ScopeRef) (state : State)
    (hbare : ∀ statement ∈ node.statements, statement.isBare = false) :
    (∀ final, program host node scope state = .ok none final →
      ∃ result, entry host node scope state = .ok result final) ∧
    (∀ fault final, program host node scope state = .error (.fault fault) final →
      entry host node scope state = .error (.fault fault) final) ∧
    ∀ value final, program host node scope state = .ok (some value) final →
      ∃ before last rest middle, node.statements = before ++ last :: rest ∧
        program host (.program before) scope state = .ok none middle ∧
        program host (.program [last]) scope middle = .ok (some value) final ∧
        (rest = [] → entry host node scope state = .ok (some value) final) ∧
        (rest ≠ [] → entry host node scope state = entry host (.program rest) scope final) := by
  rw [entry_eq_entryFrom]
  refine ⟨fun final h => entryFrom_of_normal hbare h none, ?_, ?_⟩
  · intro fault final h
    rcases statements_cases host node.statements scope state with
      ⟨_, hnormal⟩ | ⟨before, last, rest, middle, hsplit, hbefore, hlast⟩
    · cases hnormal.symm.trans h
    · rw [hsplit] at hbare ⊢
      have hfollows := entryStatement_follows (hbare last (by simp)) host scope middle
      rw [hlast.trans h] at hfollows
      rw [entryFrom_of_stop hbare hbefore, bind_of_error hfollows.of_fault]
  · intro value final h
    rcases statements_cases host node.statements scope state with
      ⟨_, hnormal⟩ | ⟨before, last, rest, middle, hsplit, hbefore, hlast⟩
    · cases hnormal.symm.trans h
    · refine ⟨before, last, rest, middle, hsplit, hbefore, hlast.trans h, ?_⟩
      rw [hsplit] at hbare ⊢
      have hfollows := entryStatement_follows (hbare last (by simp)) host scope middle
      rw [hlast.trans h] at hfollows
      rw [entryFrom_of_stop hbare hbefore, bind_of_ok hfollows.of_returned]
      constructor
      · rintro rfl
        rfl
      · intro hrest
        rw [entryFrom_eq_entry hrest]

/-- The program `「a」 を 返却 「b」 を 表示`. -/
def earlyReturn : Node :=
  .program [.giveBack (.literal (.text "a")), .call "表示" [.literal (.text "b")]]

theorem entry_follows_program_earlyReturn :
    let state := root.after .initial
    let final := state.tell (.returned (.text "a"))
    (∀ statement ∈ earlyReturn.statements, statement.isBare = false) ∧
      program .standard earlyReturn ⟨0⟩ state = .ok (some (.text "a")) final ∧
      entry .standard earlyReturn ⟨0⟩ state =
        entry .standard (.program [.call "表示" [.literal (.text "b")]]) ⟨0⟩ final := by
  intro state final
  have hbare : ∀ statement ∈ earlyReturn.statements, statement.isBare = false := by decide
  have hprogram : program .standard earlyReturn ⟨0⟩ state = .ok (some (.text "a")) final := rfl
  have hreturned : statements .standard [.giveBack (.literal (.text "a"))] ⟨0⟩ state =
      .ok (some (.text "a")) final := rfl
  obtain ⟨before, last, rest, middle, hsplit, hbefore, _, _, hrest⟩ :=
    (entry_follows_program .standard earlyReturn ⟨0⟩ state hbare).2.2 _ _ hprogram
  refine ⟨hbare, hprogram, ?_⟩
  cases before with
  | nil =>
      cases hsplit
      exact hrest (List.cons_ne_nil _ _)
  | cons first others =>
      -- The script cannot have come past its first statement.
      obtain ⟨rfl, _⟩ := List.cons.inj hsplit
      cases (statements_cons_of_returned hreturned).symm.trans hbefore

/-- A script shows nothing behind its end, and an entry with the same statements does. -/
theorem entry_shows_more_than_program :
    let state := root.after .initial
    (∀ statement ∈ earlyReturn.statements, statement.isBare = false) ∧
      ((program .standard earlyReturn ⟨0⟩).after state).shown = [] ∧
      ((entry .standard earlyReturn ⟨0⟩).after state).shown = [(.text "b", "b")] := by
  decide +kernel

end Entry

end Run

end Wabun
