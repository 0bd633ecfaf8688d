import Fides.Observability.Integrity
import Fides.Storage.Cache

/-! # The cache check

The third check of the integrity checker compares the cache with the accounts table.  It
queries the table once and then passes over the cache twice, once for the accounts that are
stored and once for accounts that are not.  The map behind the cache is not locked as a
whole during a pass, so the cache may change while it is read.
-/

namespace Fides.Observability

open Domain Storage

/-- `SELECT id, posted_balance, pending_balance FROM accounts` -/
def storedBalances (t : Tables) : List (Int × Int × Int) :=
  t.accounts.map fun row => (row.id, row.postedBalance, row.pendingBalance)

abbrev CacheEntry := AccountId × Int × Int

/-- `BalanceCache::iter`, while the cache goes through these states: every account is
    visited once, in any order, and seen as it is in one of them. -/
structure Iterates (caches : List BalanceCache) (entries : List CacheEntry) : Prop where
  once : (entries.map Prod.fst).Nodup
  seen : ∀ id, ∃ cache ∈ caches, (entries.find? fun entry => entry.1 = id).map Prod.snd =
    (cache.balances id).map fun balance => (balance.posted, balance.pending)

/-- The lookup by account id that is collected from a pass. -/
def cacheMap (entries : List CacheEntry) : Int → Option (Int × Int) :=
  entries.foldl (fun map entry id => if id = entry.1.value then some entry.2 else map id)
    fun _ => none

/-- The loop over the stored accounts. -/
def countStale (map : Int → Option (Int × Int)) : List (Int × Int × Int) → Nat → Nat
  | [], mismatches => mismatches
  | (id, posted, pending) :: rows, mismatches =>
      match map id with
      | some cached =>
          if posted ≠ cached.1 ∨ pending ≠ cached.2 then countStale map rows (mismatches + 1)
          else countStale map rows mismatches
      | none => countStale map rows (mismatches + 1)

/-- The loop over the cached accounts. -/
def countUnknown (stored : List Int) : List CacheEntry → Nat → Nat
  | [], mismatches => mismatches
  | entry :: entries, mismatches =>
      if entry.1.value ∈ stored then countUnknown stored entries mismatches
      else countUnknown stored entries (mismatches + 1)

/-- The gauge after the check, given how the query ended, what the two passes over the cache have
    collected and what the gauge was before. -/
def checkCacheConsistency (queried : Except SqlError (List (Int × Int × Int)))
    (first second : List CacheEntry) (gauge : Option Nat) : Option Nat :=
  match queried with
  | .error _ => gauge
  | .ok rows =>
      some (countUnknown (rows.map Prod.fst) second (countStale (cacheMap first) rows 0))

/-- All three gauges. -/
structure Readings where
  gauges : Gauges
  cacheMismatches : Option Nat
  deriving DecidableEq, Repr

/-- The checks one after the other: the tables as the first and as the second check query them, and
    what the third one gets. -/
def runAllChecks (global accounts : Tables) (queried : Except SqlError (List (Int × Int × Int)))
    (first second : List CacheEntry) (readings : Readings) : Option Readings := do
  let gauges ← checkGlobalBalance global readings.gauges
  let gauges ← checkAccountBalances accounts gauges
  return ⟨gauges, checkCacheConsistency queried first second readings.cacheMismatches⟩

section Counts

theorem countStale_eq (map : Int → Option (Int × Int)) (rows : List (Int × Int × Int)) (n : Nat) :
    countStale map rows n = n + rows.countP fun row => map row.1 ≠ some row.2 := by
  induction rows generalizing n with
  | nil => rfl
  | cons row rows ih =>
    obtain ⟨id, posted, pending⟩ := row
    rw [countStale, List.countP_cons]
    cases map id with
    | none =>
      simp only [ih]
      simp
      omega
    | some cached =>
      obtain ⟨posted', pending'⟩ := cached
      by_cases same : posted = posted' ∧ pending = pending'
      · obtain ⟨rfl, rfl⟩ := same
        simp [ih]
      · have apart : posted ≠ posted' ∨ pending ≠ pending' := by
          by_contra both
          push Not at both
          exact same both
        have counted : ((posted', pending') : Int × Int) ≠ (posted, pending) := by
          intro equal
          cases equal
          exact same ⟨rfl, rfl⟩
        simp only [if_pos apart, ih]
        simp [counted]
        omega

theorem countUnknown_eq (stored : List Int) (entries : List CacheEntry) (n : Nat) :
    countUnknown stored entries n = n + entries.countP fun entry => entry.1.value ∉ stored := by
  induction entries generalizing n with
  | nil => rfl
  | cons entry entries ih =>
    rw [countUnknown, List.countP_cons]
    split
    · rename_i known
      simp [ih, known]
    · rename_i unknown
      simp [ih, unknown]
      omega

private theorem cacheMap_foldl (entries : List CacheEntry) (once : (entries.map Prod.fst).Nodup)
    (map : Int → Option (Int × Int)) (id : AccountId) :
    entries.foldl (fun map entry id => if id = entry.1.value then some entry.2 else map id) map
        id.value =
      ((entries.find? fun entry => entry.1 = id).map Prod.snd).or (map id.value) := by
  induction entries generalizing map with
  | nil => rfl
  | cons entry entries ih =>
    rw [List.map_cons, List.nodup_cons] at once
    rw [List.foldl_cons, ih once.2, List.find?_cons]
    by_cases same : entry.1 = id
    · have absent : (entries.find? fun other => other.1 = id) = none := by
        refine List.find?_eq_none.mpr fun other member equal => once.1 ?_
        rw [same, ← of_decide_eq_true equal]
        exact List.mem_map_of_mem member
      simp [same, absent]
    · have apart : id.value ≠ entry.1.value := by
        intro equal
        exact same (by cases h : entry.1; cases id; simp_all)
      simp [same, apart]

/-- The lookup has each account as the pass has seen it. -/
theorem Iterates.cacheMap {caches : List BalanceCache} {entries : List CacheEntry}
    (pass : Iterates caches entries) (a : Int) : ∃ cache ∈ caches,
      cacheMap entries a = (cache.balances ⟨a⟩).map fun balance => (balance.posted, balance.pending) := by
  obtain ⟨cache, member, seen⟩ := pass.seen ⟨a⟩
  refine ⟨cache, member, ?_⟩
  rw [← seen]
  exact (cacheMap_foldl entries pass.once _ ⟨a⟩).trans (Option.or_none)

/-- A pass over a cache that stands still, where the accounts come in this order. -/
def visiting (cache : BalanceCache) (ids : List AccountId) : List CacheEntry :=
  ids.filterMap fun id => (cache.balances id).map fun balance => (id, balance.posted, balance.pending)

private theorem find_visiting (cache : BalanceCache) (ids : List AccountId) (id : AccountId) :
    ((visiting cache ids).find? fun entry => entry.1 = id).map Prod.snd =
      if id ∈ ids then (cache.balances id).map fun balance => (balance.posted, balance.pending)
      else none := by
  induction ids with
  | nil => rfl
  | cons other ids ih =>
    rw [visiting, List.filterMap_cons, ← visiting]
    by_cases same : other = id
    · subst same
      cases shown : cache.balances other with
      | none =>
        simp only [Option.map_none, ih, shown]
        simp
      | some balance => simp
    · cases shown : cache.balances other <;> simp [ih, same, Ne.symm same]

private theorem visiting_sublist (cache : BalanceCache) (ids : List AccountId) :
    ((visiting cache ids).map Prod.fst).Sublist ids := by
  induction ids with
  | nil => exact .slnil
  | cons id ids ih =>
    rw [visiting, List.filterMap_cons, ← visiting]
    cases cache.balances id with
    | none => exact ih.cons id
    | some balance => exact ih.cons_cons id

theorem Iterates.of_still {caches : List BalanceCache} {cache : BalanceCache} (there : cache ∈ caches)
    {ids : List AccountId} (once : ids.Nodup) (all : ∀ id, (cache.balances id).isSome → id ∈ ids) :
    Iterates caches (visiting cache ids) where
  once := once.sublist (visiting_sublist cache ids)
  seen id := by
    refine ⟨cache, there, (find_visiting cache ids id).trans ?_⟩
    split
    · rfl
    · rename_i absent
      cases shown : cache.balances id with
      | none => rfl
      | some balance => exact absurd (all id (by rw [shown]; rfl)) absent

/-- What the check counts. -/
theorem checkCacheConsistency_eq (t : Tables) (first second : List CacheEntry) (gauge : Option Nat) :
    checkCacheConsistency (.ok (storedBalances t)) first second gauge = some
      (t.accounts.countP (fun row =>
          cacheMap first row.id ≠ some (row.postedBalance, row.pendingBalance)) +
        second.countP fun entry => entry.1.value ∉ t.accounts.map AccountRow.id) := by
  have ids : (storedBalances t).map Prod.fst = t.accounts.map AccountRow.id := by
    simp [storedBalances, Function.comp_def]
  rw [checkCacheConsistency, countUnknown_eq, countStale_eq, ids, zero_add, storedBalances,
    List.countP_map]
  rfl

end Counts

end Fides.Observability
