import Wabun.Proofs.Conduct
import Wabun.Proofs.Confinement

/-!
A module cannot touch what it cannot reach. The module runs in a new root, so it
starts with nothing that existed before. What it comes by later are objects of the
loaded modules and objects that it made, also where it calls procedures, binds
methods, makes instances, catches what is thrown, attaches static methods or imports
further modules.
-/

namespace Wabun

namespace Engine

/-- Loading a module spares every object that existed before and that the loaded
modules do not lead to: scopes keep their bindings and exported names, instances
their fields, classes their static methods, and all else that they consist of.
Where no module is loaded yet, nothing that existed before is changed. -/
theorem loadModule_spares_unreached (host : Host) (fuel : Nat) (name : String) (state : State) :
    let final := ((ofFuel host fuel).loadModule host name).after state
    (∀ object, state.heap.Has object → ¬ state.Reaches object →
      final.heap.Has object ∧ state.heap.Agrees final.heap object) ∧
    (state.modules = ∅ → ∀ object, state.heap.Has object →
      final.heap.Has object ∧ state.heap.Agrees final.heap object) := by
  intro final
  have hload : state.confinement.Obeys () state.MayHoldAll ((ofFuel host fuel).loadModule host name)
      state :=
    (Discipline.Governs.ofFuel state.confinement host fuel).loadModule name
  have hfinal : state.Confined final := (hload.after (.refl state)).1
  have hspared : ∀ object, state.heap.Has object → ¬ state.Reaches object →
      final.heap.Has object ∧ state.heap.Agrees final.heap object :=
    fun object hhas hreaches => ⟨hfinal.grows object hhas, hfinal.agrees object hhas hreaches⟩
  refine ⟨hspared, fun hempty object hhas => hspared object hhas ?_⟩
  exact State.not_reaches_of_no_modules hempty

/-- A loaded module with a procedure that assigns to `数` of the module, and a scope
of its importer that binds the same name. -/
def sharedCounter : State :=
  { State.initial with
    heap := { Heap.empty with
      forest := ⟨#[{ Scope.root with vars := Table.empty.insert "数" (.text "old") },
        { Scope.root with vars := Table.empty.insert "数" (.text "mine") }]⟩
      procedures :=
        #[⟨"書く", [], [.variableDeclaration .nearest "数" (.literal (.text "new"))], ⟨0⟩⟩] }
    modules := Table.empty.insert "蔵" (Table.empty.insert "書く" (.procedure ⟨0⟩)) }

/-- The module `客` calls what it imports. -/
def callingModule : Table (List Node) :=
  Table.empty.insert "客" [.importing "蔵", .call "書く" []]

theorem loadModule_spares_unreached_sharedCounter :
    let host := Host.standard.withModules callingModule
    let final := ((ofFuel host 9).loadModule host "客").after sharedCounter
    sharedCounter.Reaches (.scope ⟨0⟩) ∧
    final.heap.forest.binding? ⟨0⟩ "数" = some (.text "new") ∧
    ¬ sharedCounter.Reaches (.scope ⟨1⟩) ∧
    final.heap.forest.scope ⟨1⟩ = sharedCounter.heap.forest.scope ⟨1⟩ := by
  intro host final
  have hprocedure : sharedCounter.Reaches (.procedure ⟨0⟩) :=
    .cached List.mem_cons_self List.mem_cons_self rfl
  have honly : ∀ object, sharedCounter.Reaches object →
      object = .procedure ⟨0⟩ ∨ object = .scope ⟨0⟩ := by
    intro object hreaches
    induction hreaches with
    | cached hloaded hentry hobject =>
        obtain rfl := List.mem_singleton.mp hloaded
        obtain rfl := List.mem_singleton.mp hentry
        exact .inl (Option.some.inj hobject).symm
    | link _ hlink ih =>
        rcases ih with rfl | rfl
        · cases hlink with
          | closure => exact .inr rfl
        · cases hlink with
          | parent h => cases h
          | binding hentry hobject =>
              obtain rfl := List.mem_singleton.mp hentry
              cases hobject
  have hunreached : ¬ sharedCounter.Reaches (.scope ⟨1⟩) := by
    intro hreaches
    rcases honly _ hreaches with heq | heq <;> cases heq
  have hexists : sharedCounter.heap.Has (.scope ⟨1⟩) := Nat.lt_succ_self 1
  have hspared := (loadModule_spares_unreached host 9 "客" sharedCounter).1
  refine ⟨.link hprocedure (.closure ⟨0⟩), by decide +kernel, hunreached, ?_⟩
  exact (hspared (.scope ⟨1⟩) hexists hunreached).2

end Engine

end Wabun
