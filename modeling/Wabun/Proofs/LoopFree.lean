import Wabun.Proofs.Calculus

/-!
Statements without loops. A loop counts wherever it could be run, also in a body
that is only kept for later.
-/

namespace Wabun

namespace Node

mutual

/-- There is no loop in the bodies of a node, at any depth. In the place of an
expression no statement is run. -/
def loopFree : Node → Bool
  | .loop _ _ => false
  | .function _ _ body | .classDeclaration _ _ body | .staticMethod _ _ body => allLoopFree body
  | .alternative _ consequent alternate => allLoopFree consequent && alternateLoopFree alternate
  | .distinguish _ cases => casesLoopFree cases
  | .attempt body _ handler => allLoopFree body && allLoopFree handler
  | _ => true

def allLoopFree : List Node → Bool
  | [] => true
  | node :: rest => loopFree node && allLoopFree rest

def alternateLoopFree : Option (List Node) → Bool
  | none => true
  | some body => allLoopFree body

def caseLoopFree : PatternCase → Bool
  | .mk _ _ body => allLoopFree body

def casesLoopFree : List PatternCase → Bool
  | [] => true
  | candidate :: rest => caseLoopFree candidate && casesLoopFree rest

end

theorem allLoopFree_iff {body : List Node} :
    allLoopFree body = true ↔ ∀ node ∈ body, loopFree node = true := by
  induction body with
  | nil => simp [allLoopFree]
  | cons node rest ih => simp [allLoopFree, ih]

theorem casesLoopFree_iff {cases : List PatternCase} :
    casesLoopFree cases = true ↔ ∀ candidate ∈ cases, allLoopFree candidate.body = true := by
  induction cases with
  | nil => simp [casesLoopFree]
  | cons candidate rest ih =>
      cases candidate with
      | mk pattern guard body => simp [casesLoopFree, caseLoopFree, ih, PatternCase.body]

theorem allLoopFree_of_mem_bodies {node : Node} {inner : List Node}
    (h : loopFree node = true) (hmem : inner ∈ node.bodies) : allLoopFree inner = true := by
  cases node with
  | function _ _ body | classDeclaration _ _ body | staticMethod _ _ body =>
      rw [List.mem_singleton.mp hmem]
      exact h
  | alternative condition consequent alternate =>
      simp only [loopFree, Bool.and_eq_true] at h
      rcases List.mem_cons.mp hmem with rfl | hother
      · exact h.1
      · rw [Option.mem_toList] at hother
        cases hother
        exact h.2
  | distinguish subject cases =>
      obtain ⟨candidate, hcandidate, rfl⟩ := List.mem_map.mp hmem
      exact casesLoopFree_iff.mp h candidate hcandidate
  | attempt body caught handler =>
      simp only [loopFree, Bool.and_eq_true] at h
      rcases List.mem_cons.mp hmem with rfl | hother
      · exact h.1
      · rw [List.mem_singleton.mp hother]
        exact h.2
  | loop condition body => cases h
  | _ => exact absurd hmem List.not_mem_nil

theorem sizeOf_lt_of_mem_bodies {node : Node} {inner : List Node} (hmem : inner ∈ node.bodies) :
    sizeOf inner < sizeOf node := by
  cases node with
  | function _ _ body | classDeclaration _ _ body | staticMethod _ _ body | loop _ body =>
      rw [List.mem_singleton.mp hmem]
      simp only [function.sizeOf_spec, classDeclaration.sizeOf_spec, staticMethod.sizeOf_spec,
        loop.sizeOf_spec]
      omega
  | alternative condition consequent alternate =>
      simp only [alternative.sizeOf_spec]
      rcases List.mem_cons.mp hmem with rfl | hother
      · omega
      · rw [Option.mem_toList] at hother
        cases hother
        simp only [Option.some.sizeOf_spec]
        omega
  | distinguish subject cases =>
      obtain ⟨candidate, hcandidate, rfl⟩ := List.mem_map.mp hmem
      have hlt := List.sizeOf_lt_of_mem hcandidate
      simp only [distinguish.sizeOf_spec]
      cases candidate with
      | mk pattern guard body =>
          simp only [PatternCase.mk.sizeOf_spec] at hlt
          rw [PatternCase.body]
          omega
  | attempt body caught handler =>
      simp only [attempt.sizeOf_spec]
      rcases List.mem_cons.mp hmem with rfl | hother
      · omega
      · rw [List.mem_singleton.mp hother]
        omega
  | _ => exact absurd hmem List.not_mem_nil

theorem sizeOf_le_of_sublist {body inner : List Node} (h : inner.Sublist body) :
    sizeOf inner ≤ sizeOf body := by
  induction h with
  | slnil => exact Nat.le_refl _
  | cons node _ ih =>
      simp only [List.cons.sizeOf_spec]
      omega
  | cons_cons node _ ih =>
      simp only [List.cons.sizeOf_spec]
      omega

/-- Statements without a loop, of a bounded size. -/
structure Bounded (size : Nat) (body : List Node) : Prop where
  loopFree : allLoopFree body = true
  sizeOf_le : sizeOf body ≤ size

/-- Inside of a bounded body all bodies are. -/
theorem hereditary_bounded (size : Nat) : Hereditary (Bounded size) where
  bodies {body inner node} h hmem hinner := by
    refine ⟨?_, ?_⟩
    · exact allLoopFree_of_mem_bodies (allLoopFree_iff.mp h.loopFree node hmem) hinner
    · have hnode := List.sizeOf_lt_of_mem hmem
      have hlt := sizeOf_lt_of_mem_bodies hinner
      have hle := h.sizeOf_le
      omega
  sublist {body inner} h hinner := by
    refine ⟨?_, Nat.le_trans (sizeOf_le_of_sublist hinner) h.sizeOf_le⟩
    exact allLoopFree_iff.mpr fun node hmem =>
      allLoopFree_iff.mp h.loopFree node (hinner.subset hmem)

end Node

end Wabun
