import Mathlib.Tactic
import Mathlib.Logic.Relation

/-! # Resource orders rule out waiting in a circle

When every party holds only resources that come strictly before each resource it
still wants, the resources along a chain of waiting parties strictly increase.
-/

namespace Concurrency

variable {T R β : Type} [Preorder β] {wants holds : T → R → Prop} {rank : R → β}

/-- One party waits for another that holds something it wants. -/
def Awaits (wants holds : T → R → Prop) (a b : T) : Prop := ∃ r, wants a r ∧ holds b r

theorem Awaits.chain (ordered : ∀ t r r', holds t r → wants t r' → rank r < rank r') {a b : T}
    (path : Relation.TransGen (Awaits wants holds) a b) :
    ∃ r r', wants a r ∧ holds b r' ∧ rank r ≤ rank r' := by
  induction path with
  | single edge =>
      obtain ⟨r, wanted, held⟩ := edge
      exact ⟨r, r, wanted, held, le_refl _⟩
  | tail _ edge ih =>
      obtain ⟨r, r', wanted, held, le⟩ := ih
      obtain ⟨next, wantedNext, heldNext⟩ := edge
      exact ⟨r, next, wanted, heldNext, le_trans le (ordered _ _ _ held wantedNext).le⟩

theorem Awaits.acyclic (ordered : ∀ t r r', holds t r → wants t r' → rank r < rank r') (a : T) :
    ¬ Relation.TransGen (Awaits wants holds) a a := by
  intro circle
  obtain ⟨r, r', wanted, held, le⟩ := Awaits.chain ordered circle
  exact absurd (ordered a r' r held wanted) (not_lt_of_ge le)

end Concurrency
