import Mathlib.Data.List.ReduceOption
import Mathlib.Tactic

/-! # Queries over tables

A column that may be NULL is an `Option`.  A comparison with NULL is NULL, and a
condition selects only what it is true of.  A left join keeps a row without a
partner and pairs it with NULL; grouping lists each key once, with its rows.
-/

namespace Relational

section Values

def equals (a : Option Int) (b : Int) : Option Bool := a.map fun x => decide (x = b)

def differs (a : Option Int) (b : Int) : Option Bool := a.map fun x => decide (x ≠ b)

/-- `AND`: false if one side is, whatever the other is. -/
def both (p q : Option Bool) : Option Bool :=
  if p = some false ∨ q = some false then some false
  else if p = some true ∧ q = some true then some true
  else none

/-- `CASE WHEN p THEN value ELSE other END` -/
def caseWhen (p : Option Bool) (value other : Option Int) : Option Int :=
  if p = some true then value else other

/-- `SUM` passes over NULL, and is NULL if nothing else is there. -/
def sum (values : List (Option Int)) : Option Int :=
  if values.reduceOption = [] then none else some values.reduceOption.sum

def coalesce (value : Option Int) (default : Int) : Int := value.getD default

@[simp] theorem equals_eq_true {a : Option Int} {b : Int} : equals a b = some true ↔ a = some b := by
  simp [equals]

@[simp] theorem differs_some {a b : Int} : differs (some a) b = some true ↔ a ≠ b := by
  simp [differs]

@[simp] theorem both_eq_true {p q : Option Bool} :
    both p q = some true ↔ p = some true ∧ q = some true := by
  unfold both
  split
  · rename_i no
    rcases no with rfl | rfl <;> simp
  · split <;> simp_all

/-- Without NULL there is nothing to pass over, and the empty sum is 0. -/
theorem coalesce_sum {σ : Type} (f : σ → Int) (rows : List σ) :
    coalesce (sum (rows.map fun row => some (f row))) 0 = (rows.map f).sum := by
  have values : (rows.map fun row => some (f row)).reduceOption = rows.map f := by
    induction rows with
    | nil => rfl
    | cons row rows ih => rw [List.map_cons, List.reduceOption_cons_of_some, ih, List.map_cons]
  rw [sum, values]
  split
  · rename_i empty
    rw [empty]
    rfl
  · rfl

/-- A query of which every row can be computed. -/
theorem mapM_of_ok {σ τ ε : Type} {f : σ → Except ε τ} {g : σ → τ} {rows : List σ}
    (each : ∀ row ∈ rows, f row = .ok (g row)) : rows.mapM f = .ok (rows.map g) := by
  induction rows with
  | nil => rfl
  | cons row rows ih =>
    rw [List.mapM_cons, each row List.mem_cons_self,
      ih fun row member => each row (List.mem_cons_of_mem _ member)]
    rfl

end Values

section Join

variable {α β κ : Type}

/-- A row with its partners, or alone with NULL. -/
def paired (a : α) (partners : List β) : List (α × Option β) :=
  if partners.isEmpty then [(a, none)] else partners.map fun b => (a, some b)

def leftJoin (on : α → β → Option Bool) (left : List α) (right : List β) : List (α × Option β) :=
  left.flatMap fun a => paired a (right.filter fun b => on a b = some true)

variable [DecidableEq κ]

def groupBy {ρ : Type} (group : ρ → κ) (rows : List ρ) : List (κ × List ρ) :=
  (rows.map group).eraseDups.map fun k => (k, rows.filter fun row => group row = k)

section Groups

variable {σ ρ : Type} {group : ρ → κ} {g : σ → κ} {rows : σ → List ρ}

private theorem eraseDups_of_all {k : κ} {keys : List κ} (all : ∀ key ∈ keys, key = k)
    (some : keys ≠ []) : keys.eraseDups = [k] := by
  induction keys with
  | nil => exact absurd rfl some
  | cons key keys ih =>
    have here := all key List.mem_cons_self
    subst here
    have gone : (keys.filter fun other => !other == key) = [] := by
      rw [List.filter_eq_nil_iff]
      intro other member
      simp [all other (List.mem_cons_of_mem _ member)]
    rw [List.eraseDups_cons, gone]
    rfl

private theorem keys_flatMap (grouped : ∀ a, ∀ row ∈ rows a, group row = g a)
    (some : ∀ a, rows a ≠ []) {left : List σ} (distinct : (left.map g).Nodup) :
    ((left.flatMap rows).map group).eraseDups = left.map g := by
  induction left with
  | nil => rfl
  | cons a left ih =>
    obtain ⟨fresh, rest⟩ := List.nodup_cons.mp distinct
    have here : ∀ key ∈ (rows a).map group, key = g a := by
      intro key member
      obtain ⟨row, inside, rfl⟩ := List.mem_map.mp member
      exact grouped a row inside
    have apart : ((left.flatMap rows).map group).removeAll ((rows a).map group) =
        (left.flatMap rows).map group := by
      rw [List.removeAll, List.filter_eq_self]
      intro key member
      obtain ⟨row, inside, rfl⟩ := List.mem_map.mp member
      obtain ⟨other, listed, owned⟩ := List.mem_flatMap.mp inside
      have elsewhere : group row ∉ (rows a).map group := fun also =>
        fresh (List.mem_map.mpr ⟨other, listed, (grouped other row owned).symm.trans (here _ also)⟩)
      simpa using elsewhere
    rw [List.flatMap_cons, List.map_append, List.eraseDups_append, apart, ih rest,
      eraseDups_of_all here (by simpa using some a), List.map_cons, List.singleton_append]

private theorem filter_flatMap (grouped : ∀ a, ∀ row ∈ rows a, group row = g a)
    {left : List σ} (distinct : (left.map g).Nodup) {a : σ} (member : a ∈ left) :
    (left.flatMap rows).filter (fun row => group row = g a) = rows a := by
  induction left with
  | nil => cases member
  | cons first left ih =>
    obtain ⟨fresh, rest⟩ := List.nodup_cons.mp distinct
    rw [List.flatMap_cons, List.filter_append]
    rcases List.mem_cons.mp member with rfl | later
    · have own : (rows a).filter (fun row => group row = g a) = rows a := by
        rw [List.filter_eq_self]
        intro row inside
        simpa using grouped a row inside
      have other : (left.flatMap rows).filter (fun row => group row = g a) = [] := by
        rw [List.filter_eq_nil_iff]
        intro row inside same
        obtain ⟨other, listed, owned⟩ := List.mem_flatMap.mp inside
        exact fresh (List.mem_map.mpr
          ⟨other, listed, (grouped other row owned).symm.trans (by simpa using same)⟩)
      rw [own, other, List.append_nil]
    · have none : (rows first).filter (fun row => group row = g a) = [] := by
        rw [List.filter_eq_nil_iff]
        intro row inside same
        have equal : g first = g a := (grouped first row inside).symm.trans (by simpa using same)
        exact fresh (List.mem_map.mpr ⟨a, later, equal.symm⟩)
      rw [none, List.nil_append, ih rest later]

/-- Rows laid out key by key are grouped as they lie. -/
theorem groupBy_flatMap (grouped : ∀ a, ∀ row ∈ rows a, group row = g a)
    (some : ∀ a, rows a ≠ []) {left : List σ} (distinct : (left.map g).Nodup) :
    groupBy group (left.flatMap rows) = left.map fun a => (g a, rows a) := by
  rw [groupBy, keys_flatMap grouped some distinct, List.map_map]
  refine List.map_congr_left fun a member => ?_
  rw [Function.comp, filter_flatMap grouped distinct member]

end Groups

theorem fst_of_mem_paired {a : α} {partners : List β} {pair : α × Option β}
    (member : pair ∈ paired a partners) : pair.1 = a := by
  unfold paired at member
  split at member
  · rw [List.mem_singleton.mp member]
  · obtain ⟨b, -, rfl⟩ := List.mem_map.mp member
    rfl

theorem paired_ne_nil (a : α) (partners : List β) : paired a partners ≠ [] := by
  unfold paired
  split
  · simp
  · rename_i some
    simpa using some

/-- Grouped by the left rows, a left join gives each of them its partners. -/
theorem groupBy_leftJoin (on : α → β → Option Bool) {g : α → κ} {left : List α} (right : List β)
    (distinct : (left.map g).Nodup) :
    groupBy (fun pair => g pair.1) (leftJoin on left right) =
      left.map fun a => (g a, paired a (right.filter fun b => on a b = some true)) := by
  apply groupBy_flatMap _ _ distinct
  · intro a pair member
    exact congrArg g (fst_of_mem_paired member)
  · intro a
    exact paired_ne_nil a _

/-- A conditional sum over the partners of a row.  A row without partners has the sum 0,
    since NULL does not meet the condition. -/
theorem coalesce_sum_paired {p : Option β → Option Bool} (unmet : p none ≠ some true) (f : β → Int)
    (a : α) (partners : List β) :
    coalesce (sum ((paired a partners).map fun pair =>
      caseWhen (p pair.2) (pair.2.map f) (some 0))) 0 =
      (partners.map fun b => if p (some b) = some true then f b else 0).sum := by
  have value : ∀ b, caseWhen (p b) (b.map f) (some 0) =
      some ((b.map fun b => if p (some b) = some true then f b else 0).getD 0) := by
    intro b
    cases b with
    | none => simp [caseWhen, unmet]
    | some b =>
      simp only [caseWhen, Option.map_some, Option.getD_some]
      split <;> rfl
  simp only [value]
  rw [coalesce_sum]
  unfold paired
  split
  · rename_i empty
    rw [List.isEmpty_iff.mp empty]
    rfl
  · simp [Function.comp_def]

end Join
end Relational
