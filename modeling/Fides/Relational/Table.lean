import Mathlib.Tactic
import Mathlib.Data.List.Nodup

/-! # Tables of keyed rows

A table is the list of its rows in the order in which they became visible.  A
transaction does not write into a table: it leaves row versions behind, and
`merge` puts them in place when it commits.  The two shapes of a merge that
programs rely on are stated as equations: versions of rows which are not there
yet are appended, versions of rows which are there replace them where they are.
-/

namespace Relational

/-- Rows with an integer primary key. -/
class Keyed (ρ : Type) where
  key : ρ → Int

export Keyed (key)

variable {ρ : Type} [Keyed ρ]

/-- Lookup by primary key. -/
def find (rows : List ρ) (k : Int) : Option ρ := rows.find? fun row => key row = k

/-- Put one row version in place: over the row with its key, or at the end. -/
def upsert : List ρ → ρ → List ρ
  | [], version => [version]
  | row :: rows, version =>
      if key row = key version then version :: rows else row :: upsert rows version

/-- Put the row versions of a transaction in place, oldest first. -/
def merge (rows versions : List ρ) : List ρ := versions.foldl upsert rows

def Distinct (rows : List ρ) : Prop := (rows.map key).Nodup

instance (rows : List ρ) : Decidable (Distinct rows) :=
  inferInstanceAs (Decidable (rows.map key).Nodup)

@[simp] theorem find_nil (k : Int) : find ([] : List ρ) k = none := rfl

theorem find_cons (row : ρ) (rows : List ρ) (k : Int) :
    find (row :: rows) k = if key row = k then some row else find rows k := by
  by_cases same : key row = k <;> simp [find, same]

theorem mem_of_find {rows : List ρ} {k : Int} {row : ρ} (found : find rows k = some row) :
    row ∈ rows :=
  List.mem_of_find?_eq_some found

theorem key_of_find {rows : List ρ} {k : Int} {row : ρ} (found : find rows k = some row) :
    key row = k := by
  simpa using List.find?_some found

theorem find_eq_none {rows : List ρ} {k : Int} :
    find rows k = none ↔ ∀ row ∈ rows, key row ≠ k := by
  simp [find, List.find?_eq_none]

theorem find_of_mem {rows : List ρ} (distinct : Distinct rows) {row : ρ} (member : row ∈ rows) :
    find rows (key row) = some row := by
  cases found : find rows (key row) with
  | none => exact absurd rfl (find_eq_none.mp found row member)
  | some other =>
      have same := List.inj_on_of_nodup_map distinct (mem_of_find found) member (key_of_find found)
      rw [same]

theorem find_append (rows more : List ρ) (k : Int) :
    find (rows ++ more) k = (find rows k).or (find more k) :=
  List.find?_append

/-- An update of the rows that leaves their keys alone acts on what is found. -/
theorem find_map {f : ρ → ρ} (keyed : ∀ row, key (f row) = key row) (rows : List ρ) (k : Int) :
    find (rows.map f) k = (find rows k).map f := by
  induction rows with
  | nil => rfl
  | cons row rows ih =>
      simp only [List.map_cons, find_cons, keyed, ih]
      split <;> rfl

theorem Distinct.map {f : ρ → ρ} (keyed : ∀ row, key (f row) = key row) {rows : List ρ}
    (distinct : Distinct rows) : Distinct (rows.map f) := by
  have same : (rows.map f).map key = rows.map key := by
    simp only [List.map_map, Function.comp_def, keyed]
  simpa only [Distinct, same] using distinct

theorem Distinct.append {rows more : List ρ} (first : Distinct rows) (last : Distinct more)
    (fresh : ∀ row ∈ more, find rows (key row) = none) : Distinct (rows ++ more) := by
  simp only [Distinct, List.map_append]
  refine List.Nodup.append first last ?_
  intro k left right
  obtain ⟨old, oldMember, rfl⟩ := List.mem_map.mp left
  obtain ⟨new, newMember, same⟩ := List.mem_map.mp right
  exact find_eq_none.mp (fresh new newMember) old oldMember same.symm

theorem find_upsert (rows : List ρ) (version : ρ) (k : Int) :
    find (upsert rows version) k = if key version = k then some version else find rows k := by
  induction rows with
  | nil => simp only [upsert, find_cons, find_nil]
  | cons row rows ih =>
      by_cases replaced : key row = key version
      · rw [upsert, if_pos replaced, find_cons, find_cons, replaced]
        split <;> rfl
      · by_cases looked : key row = k
        · have other : key version ≠ k := fun same => replaced (looked.trans same.symm)
          simp only [upsert, if_neg replaced, find_cons, if_pos looked, if_neg other]
        · simp only [upsert, if_neg replaced, find_cons, if_neg looked, ih]

/-- Row versions of other keys do not hide a row. -/
theorem find_merge_of_other {versions : List ρ} {k : Int} (other : ∀ v ∈ versions, key v ≠ k)
    (rows : List ρ) : find (merge rows versions) k = find rows k := by
  induction versions generalizing rows with
  | nil => rfl
  | cons version versions ih =>
      change find (merge (upsert rows version) versions) k = _
      rw [ih (fun v member => other v (List.mem_cons_of_mem _ member)), find_upsert,
        if_neg (other version List.mem_cons_self)]

private theorem upsert_of_none {rows : List ρ} {version : ρ}
    (absent : find rows (key version) = none) : upsert rows version = rows ++ [version] := by
  induction rows with
  | nil => rfl
  | cons row rows ih =>
      rw [find_cons] at absent
      split at absent
      · cases absent
      · rename_i other
        simp only [upsert, if_neg other, ih absent, List.cons_append]

/-- Versions of rows that are not in the table are inserts. -/
theorem merge_fresh {rows versions : List ρ} (distinct : Distinct versions)
    (fresh : ∀ v ∈ versions, find rows (key v) = none) : merge rows versions = rows ++ versions := by
  induction versions generalizing rows with
  | nil => exact (List.append_nil rows).symm
  | cons version versions ih =>
      obtain ⟨first, rest⟩ := List.nodup_cons.mp distinct
      change merge (upsert rows version) versions = _
      rw [upsert_of_none (fresh version List.mem_cons_self)]
      rw [ih rest, List.append_assoc, List.singleton_append]
      intro v member
      have other : key version ≠ key v := fun same =>
        first (same ▸ List.mem_map_of_mem member)
      rw [find_append, fresh v (List.mem_cons_of_mem _ member), find_cons, if_neg other]
      rfl

private theorem upsert_of_some {rows : List ρ} (distinct : Distinct rows) {version old : ρ}
    (present : find rows (key version) = some old) :
    upsert rows version = rows.map fun row => if key row = key version then version else row := by
  induction rows with
  | nil => cases present
  | cons row rows ih =>
      obtain ⟨first, rest⟩ := List.nodup_cons.mp distinct
      by_cases same : key row = key version
      · have tail : rows.map (fun row => if key row = key version then version else row) = rows := by
          conv_rhs => rw [← List.map_id rows]
          apply List.map_congr_left
          intro other member
          have apart : key other ≠ key version := fun equal =>
            first ((equal.trans same.symm) ▸ List.mem_map_of_mem member)
          exact if_neg apart
        simp only [upsert, List.map_cons, if_pos same, tail]
      · rw [find_cons, if_neg same] at present
        simp only [upsert, List.map_cons, if_neg same, ih rest present]

/-- Versions of rows that are in the table are updates in place. -/
theorem merge_existing {rows versions : List ρ} (table : Distinct rows)
    (distinct : Distinct versions)
    (present : ∀ v ∈ versions, ∃ old, find rows (key v) = some old) :
    merge rows versions = rows.map fun row => (find versions (key row)).getD row := by
  induction versions generalizing rows with
  | nil => exact (List.map_id rows).symm
  | cons version versions ih =>
      obtain ⟨first, rest⟩ := List.nodup_cons.mp distinct
      obtain ⟨old, found⟩ := present version List.mem_cons_self
      let place : ρ → ρ := fun row => if key row = key version then version else row
      have keyed : ∀ row, key (place row) = key row := by
        intro row
        by_cases same : key row = key version
        · simp only [place, if_pos same, same]
        · simp only [place, if_neg same]
      change merge (upsert rows version) versions = _
      rw [upsert_of_some table found, ih (table.map keyed) rest]
      · rw [List.map_map]
        apply List.map_congr_left
        intro row _
        change (find versions (key (place row))).getD (place row) = _
        rw [keyed, find_cons]
        by_cases same : key row = key version
        · have gone : find versions (key row) = none := by
            rw [find_eq_none]
            intro v member equal
            exact first (same ▸ equal ▸ List.mem_map_of_mem member)
          simp only [place, gone, if_pos same, if_pos same.symm, Option.getD_none, Option.getD_some]
        · simp only [place, if_neg same, if_neg (Ne.symm same)]
      · intro v member
        obtain ⟨old, found⟩ := present v (List.mem_cons_of_mem _ member)
        exact ⟨place old, by rw [find_map keyed, found]; rfl⟩

/-- At most one row has a given key. -/
theorem filter_key {rows : List ρ} (distinct : Distinct rows) (k : Int) :
    rows.filter (fun row => key row = k) = (find rows k).toList := by
  induction rows with
  | nil => rfl
  | cons row rows ih =>
      obtain ⟨fresh, rest⟩ := List.nodup_cons.mp distinct
      rw [find_cons, List.filter_cons]
      by_cases same : key row = k
      · have none : find rows k = none := find_eq_none.mpr fun other member here =>
          fresh (List.mem_map.mpr ⟨other, member, here.trans same.symm⟩)
        simp [same, ih rest, none]
      · simp [same, ih rest]

section Sums

variable {κ σ : Type} [DecidableEq κ]

private theorem sum_of_member {keys : List κ} (distinct : keys.Nodup) {k : κ} (member : k ∈ keys)
    (value : Int) : (keys.map fun k' => if k = k' then value else 0).sum = value := by
  simp only [eq_comm (a := k)]
  simp [List.sum_map_ite_eq, List.count_eq_one_of_mem distinct member]

/-- A sum over rows, taken key by key. -/
theorem sum_by_key {keys : List κ} (distinct : keys.Nodup) (refers : σ → κ) (f : σ → Int)
    {rows : List σ} (covered : ∀ row ∈ rows, refers row ∈ keys) :
    (keys.map fun k => (rows.map fun row => if refers row = k then f row else 0).sum).sum =
      (rows.map f).sum := by
  induction rows with
  | nil => simp
  | cons row rows ih =>
      have here := covered row List.mem_cons_self
      have rest := ih fun row member => covered row (List.mem_cons_of_mem _ member)
      simp only [List.map_cons, List.sum_cons, List.sum_map_add, sum_of_member distinct here, rest]

theorem sum_filter (test : σ → Bool) (f : σ → Int) (rows : List σ) :
    ((rows.filter test).map f).sum = (rows.map fun row => if test row then f row else 0).sum := by
  induction rows with
  | nil => rfl
  | cons row rows ih => by_cases passed : test row <;> simp [passed, ih]

end Sums
end Relational
