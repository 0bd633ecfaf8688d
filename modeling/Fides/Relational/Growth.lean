import Fides.Relational.Table

/-! # Tables that only grow

A table grows along a relation between rows and their later versions: every row
stays in its place, as a version the relation allows, and new rows come last.
-/

namespace Relational

variable {ρ : Type} {R : ρ → ρ → Prop} {rows rows' rows'' : List ρ}

def Grows (R : ρ → ρ → Prop) (rows rows' : List ρ) : Prop :=
  ∃ kept new, rows' = kept ++ new ∧ List.Forall₂ R rows kept

namespace Grows

theorem append (reflexive : ∀ row, R row row) (rows new : List ρ) : Grows R rows (rows ++ new) :=
  ⟨rows, new, rfl, List.forall₂_same.mpr fun row _ => reflexive row⟩

theorem refl (reflexive : ∀ row, R row row) (rows : List ρ) : Grows R rows rows := by
  simpa using append reflexive rows []

theorem map {f : ρ → ρ} (related : ∀ row, R row (f row)) (rows : List ρ) :
    Grows R rows (rows.map f) := by
  refine ⟨rows.map f, [], by simp, ?_⟩
  rw [List.forall₂_map_right_iff]
  exact List.forall₂_same.mpr fun row _ => related row

theorem trans (transitive : ∀ {a b c}, R a b → R b c → R a c) (first : Grows R rows rows')
    (second : Grows R rows' rows'') : Grows R rows rows'' := by
  obtain ⟨kept, new, rfl, related⟩ := first
  obtain ⟨kept', new', rfl, related'⟩ := second
  -- What has become of the rows that the first part kept.
  have parts : List.Forall₂ R kept (kept'.take kept.length) :=
    (List.forall₂_take_append _ _ _ related'.flip).flip
  refine ⟨kept'.take kept.length, kept'.drop kept.length ++ new', ?_, ?_⟩
  · rw [← List.append_assoc, List.take_append_drop]
  generalize kept'.take kept.length = front at parts
  clear related'
  induction related generalizing front with
  | nil => cases parts; exact .nil
  | cons head _ ih =>
    cases parts with
    | cons head' tail' => exact .cons (transitive head head') (ih _ tail')

/-- A row that was there still is, as a later version. -/
theorem find [Keyed ρ] (keyed : ∀ {a b}, R a b → key b = key a) (grows : Grows R rows rows')
    {k : Int} {row : ρ} (found : find rows k = some row) :
    ∃ row', Relational.find rows' k = some row' ∧ R row row' := by
  obtain ⟨kept, new, rfl, related⟩ := grows
  induction related with
  | nil => cases found
  | cons head _ ih =>
    rw [find_cons] at found
    rw [List.cons_append, find_cons, keyed head]
    split at found
    · rename_i same
      cases found
      exact ⟨_, if_pos same, head⟩
    · rename_i other
      obtain ⟨row', there, later⟩ := ih found
      exact ⟨row', (if_neg other).trans there, later⟩

end Grows
end Relational
