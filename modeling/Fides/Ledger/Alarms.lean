import Fides.Ledger.Coherence
import Fides.Ledger.Permanence
import Fides.Ledger.Verdicts
import Fides.Observability.CacheCheck

/-! # What the integrity checker reports

The checks run beside the requests.  Requests may commit after the query of the cache check,
and may bring the cache up to date before it gets there, while it is at it or after it, so
what it reports is bounded and not determined.  Where nothing is owed to the cache, and where
settlements come in time, none of the checks raises an alarm.
-/

namespace Fides.Ledger

open Domain Service Storage Observability FixedWidth Relational Bookkeeping Concurrency

variable {cfg cfg' : Config server} {trace more : List (Transition server)}

/-- An account that a session has opened is in the book. -/
private theorem opened_present (run : Steps initial trace cfg) {i : Nat} {thread : Thread server}
    (there : cfg.threads[i]? = some thread) {id : AccountId}
    (opened : id ∈ thread.own.effects.opened) : (cfg.shared.tables.account? id.value).isSome := by
  have counted := Config.le_total (f := fun l : Session => openings id.value l.effects)
    (fun l => by simp [openings]) there
  rw [openings_steps run] at counted
  change ((thread.own.effects.opened.count id : Nat) : Int) ≤ _ at counted
  have positive := List.count_pos_iff.mpr opened
  split at counted
  · assumption
  · omega

/-- Only accounts of the book are in the cache, also after a crash. -/
theorem cached_present (run : Steps initial trace cfg) (id : AccountId)
    (cached : (cfg.shared.cache.balances id).isSome) :
    (cfg.shared.tables.account? id.value).isSome := by
  induction run generalizing id with
  | refl => cases cached
  | @snoc trace cfg event next run stepped ih =>
    have stays (present : (cfg.shared.tables.account? id.value).isSome) :
        (next.shared.tables.account? id.value).isSome :=
      account_stays (safe run) (.snoc .refl stepped) present
    rcases Config.step_cases stepped with
      ⟨r, -, rfl⟩ | ⟨i, weather, c, rest, own, answer, w', own', -, found, -, ran, rfl⟩ |
      ⟨i, c, rest, own, -, -, rfl⟩ | ⟨-, rfl⟩
    · exact ih id cached
    · cases exec_caches ran with
      | nothing cache => exact stays (ih id (cache ▸ cached))
      | apply _ cache =>
        rw [cache, BalanceCache.isSome_applyDelta] at cached
        exact stays (ih id cached)
      | @seed other posted pending made cache =>
        subst made
        by_cases same : id = other
        · subst same
          obtain ⟨summary, -⟩ := ((safe run).pre found).2
          exact stays (opened_present run found (by simp [Session.effects, summary]))
        · rw [cache, BalanceCache.balances_set, if_neg same] at cached
          exact stays (ih id cached)
    · exact ih id cached
    · have book : Consistent cfg.shared.tables cfg.shared.sequences := (safe run).inv
      change ((restart cfg.shared).cache.balances id).isSome at cached
      rw [restart_cached book] at cached
      change (cfg.shared.tables.account? id.value).isSome
      simpa [Tables.cached] using cached

/-- The states that the cache goes through. -/
def caches (cfg : Config server) (more : List (Transition server)) : List BalanceCache :=
  cfg.shared.cache :: more.map fun moved => moved.after.shared.cache

/-- The cache does not show the account as it was queried.  Its row may have moved on since. -/
def stale (row : AccountRow) (cache : BalanceCache) : Bool :=
  cache.balances ⟨row.id⟩ ≠ some ⟨row.postedBalance, row.pendingBalance⟩

private theorem stale_iff {row : AccountRow} {cache : BalanceCache} {seen : Option (Int × Int)}
    (same : seen = (cache.balances ⟨row.id⟩).map fun balance => (balance.posted, balance.pending)) :
    seen ≠ some (row.postedBalance, row.pendingBalance) ↔ stale row cache = true := by
  rw [same, stale, decide_eq_true_eq, not_iff_not]
  cases cache.balances ⟨row.id⟩ with
  | none => simp
  | some balance =>
    obtain ⟨posted, pending⟩ := balance
    simp

/-- An account that is in the cache at some time is stored in the end. -/
private theorem present_later (run : Steps initial trace cfg) (later : Steps cfg more cfg')
    {cache : BalanceCache} (member : cache ∈ caches cfg more) {id : AccountId}
    (cached : (cache.balances id).isSome) : (cfg'.shared.tables.account? id.value).isSome := by
  rcases List.mem_cons.mp member with rfl | passed
  · exact account_stays (safe run) later (cached_present run id cached)
  · obtain ⟨moved, taken, rfl⟩ := List.mem_map.mp passed
    obtain ⟨_, _, -, first, stepped, rest⟩ := later.split taken
    have reached := (run.append first).snoc stepped
    exact account_stays (safe reached) rest (cached_present reached id cached)

private theorem isSome_account? {t : Tables} {a : Int} :
    (t.account? a).isSome ↔ a ∈ t.accounts.map AccountRow.id := by
  rw [Option.isSome_iff_ne_none, Tables.account?, ne_eq, find_eq_none, List.mem_map]
  push Not
  rfl

/-- A pass has only accounts that are in the cache at some time. -/
private theorem cached_of_mem {states : List BalanceCache} {entries : List CacheEntry}
    (pass : Iterates states entries) {entry : CacheEntry} (member : entry ∈ entries) :
    ∃ cache ∈ states, (cache.balances entry.1).isSome := by
  obtain ⟨cache, there, seen⟩ := pass.seen entry.1
  refine ⟨cache, there, ?_⟩
  have found : (entries.find? fun other => other.1 = entry.1).isSome :=
    List.find?_isSome.mpr ⟨entry, member, by simp⟩
  have both := congrArg Option.isSome seen
  rwa [Option.isSome_map, Option.isSome_map, found, eq_comm] at both

/-- The accounts that the second pass does not find in the query were opened after it. -/
private theorem unknown_opened (run : Steps initial trace cfg) (later : Steps cfg more cfg')
    {entries : List CacheEntry} (pass : Iterates (caches cfg more) entries) :
    cfg.shared.tables.accounts.length + entries.countP (fun entry =>
        entry.1.value ∉ cfg.shared.tables.accounts.map AccountRow.id) ≤
      cfg'.shared.tables.accounts.length := by
  set stored := cfg.shared.tables.accounts.map AccountRow.id with listed
  let unknown := ((entries.filter fun entry => entry.1.value ∉ stored).map Prod.fst).map AccountId.value
  have book : Consistent cfg.shared.tables cfg.shared.sequences := (safe run).inv
  have once : unknown.Nodup := by
    refine List.Nodup.map (fun a b same => by cases a; cases b; cases same; rfl) ?_
    exact pass.once.sublist (List.Sublist.map _ List.filter_sublist)
  have distinct : (stored ++ unknown).Nodup := by
    refine List.nodup_append.mpr ⟨book.accounts, once, ?_⟩
    intro a known b missing same
    simp only [unknown, List.mem_map, List.mem_filter, decide_eq_true_eq] at missing
    obtain ⟨_, ⟨entry, ⟨-, absent⟩, rfl⟩, rfl⟩ := missing
    exact absent (same ▸ known)
  have within : stored ++ unknown ⊆ cfg'.shared.tables.accounts.map AccountRow.id := by
    intro a member
    rcases List.mem_append.mp member with known | missing
    · exact isSome_account?.mp (account_stays (safe run) later (isSome_account?.mpr known))
    · simp only [unknown, List.mem_map, List.mem_filter] at missing
      obtain ⟨_, ⟨entry, ⟨visited, -⟩, rfl⟩, rfl⟩ := missing
      obtain ⟨cache, there, cached⟩ := cached_of_mem pass visited
      exact isSome_account?.mp (present_later run later there cached)
  have bound := (List.subperm_of_subset distinct within).length_le
  simp only [List.length_append, List.length_map, listed, unknown] at bound
  rw [List.countP_eq_length_filter]
  exact bound

/-- A pass over a cache that a run has reached, if the accounts come as they are stored. -/
private def passing (cfg : Config server) : List CacheEntry :=
  visiting cfg.shared.cache (cfg.shared.tables.accounts.map fun row => ⟨row.id⟩)

private theorem iterates_passing (run : Steps initial trace cfg) {states : List BalanceCache}
    (there : cfg.shared.cache ∈ states) : Iterates states (passing cfg) := by
  have book : Consistent cfg.shared.tables cfg.shared.sequences := (safe run).inv
  have once : (cfg.shared.tables.accounts.map fun row => (⟨row.id⟩ : AccountId)).Nodup := by
    have ids := List.Nodup.map (fun _ _ same => AccountId.mk.inj same) book.accounts
    rwa [List.map_map] at ids
  refine Iterates.of_still there once fun id cached => ?_
  obtain ⟨row, member, same⟩ := List.mem_map.mp (isSome_account?.mp (cached_present run id cached))
  exact List.mem_map.mpr ⟨row, member, AccountId.ext_value same⟩

/-- The cache that a run ends with is one of those it goes through. -/
private theorem last_mem_caches (later : Steps cfg more cfg') :
    cfg'.shared.cache ∈ caches cfg more := by
  cases later with
  | refl => exact List.mem_cons_self
  | snoc => simp [caches]

/-- However the check runs beside the requests, also across crashes: it counts every account that
    the cache shows all the time otherwise than the row that was queried, and it counts no others
    than accounts that the cache shows so at some time and accounts that are opened while it
    runs. -/
theorem cache_alarms (run : Steps initial trace cfg) (later : Steps cfg more cfg')
    {first second : List CacheEntry} (pass : Iterates (caches cfg more) first)
    (again : Iterates (caches cfg more) second) (gauge : Option Nat) :
    ∃ mismatches,
      checkCacheConsistency (.ok (storedBalances cfg.shared.tables)) first second gauge =
        some mismatches ∧
      cfg.shared.tables.accounts.countP (fun row => (caches cfg more).all (stale row)) ≤
        mismatches ∧
      mismatches + cfg.shared.tables.accounts.length ≤
        cfg.shared.tables.accounts.countP (fun row => (caches cfg more).any (stale row)) +
          cfg'.shared.tables.accounts.length := by
  refine ⟨_, checkCacheConsistency_eq .., ?_⟩
  have unknown := unknown_opened run later again
  have least : cfg.shared.tables.accounts.countP (fun row => (caches cfg more).all (stale row)) ≤
      cfg.shared.tables.accounts.countP (fun row =>
        cacheMap first row.id ≠ some (row.postedBalance, row.pendingBalance)) := by
    refine List.countP_mono_left fun row _ always => ?_
    obtain ⟨cache, there, seen⟩ := pass.cacheMap row.id
    exact decide_eq_true ((stale_iff seen).mpr (List.all_eq_true.mp always cache there))
  have most : cfg.shared.tables.accounts.countP (fun row =>
        cacheMap first row.id ≠ some (row.postedBalance, row.pendingBalance)) ≤
      cfg.shared.tables.accounts.countP (fun row => (caches cfg more).any (stale row)) := by
    refine List.countP_mono_left fun row _ differs => ?_
    obtain ⟨cache, there, seen⟩ := pass.cacheMap row.id
    exact List.any_eq_true.mpr ⟨cache, there, (stale_iff seen).mp (of_decide_eq_true differs)⟩
  omega

/-- While the check runs, a deposit reaches the cache of the second of its accounts and a third
    account is opened.  The first pass is too early for the one, the second late enough for the
    other, and both are counted. -/
theorem cache_alarms_deposit : ∃ trace cfg more cfg' first second, Steps initial trace cfg ∧
    Steps cfg more cfg' ∧ Iterates (caches cfg more) first ∧ Iterates (caches cfg more) second ∧
    checkCacheConsistency (.ok (storedBalances cfg.shared.tables)) first second none = some 2 ∧
    cfg'.shared.tables.accounts.length = cfg.shared.tables.accounts.length + 1 ∧
    1 ≤ cfg.shared.tables.accounts.countP fun row => (caches cfg more).any (stale row) := by
  obtain ⟨trace, cfg, more, cfg', run, later, -, before, after⟩ := reached_twice (fun _ => true)
    (deposit ("USD", "USD")).dropLast
    (.call 2 .fair :: .request (.createAccount ⟨1, "EUR", 2⟩ 3) :: turns 3 4)
    (fun cfg => decide (storedBalances cfg.shared.tables = [(1, 0, 100), (2, 0, 100)] ∧
      passing cfg = [(⟨1⟩, 0, 100), (⟨2⟩, 0, 0)]))
    (fun cfg' => decide (cfg'.shared.tables.accounts.length = 3 ∧
      passing cfg' = [(⟨1⟩, 0, 100), (⟨2⟩, 0, 100), (⟨3⟩, 0, 0)]))
    (a := true) (b := true) (by decide +kernel)
  obtain ⟨queried, seen⟩ := of_decide_eq_true before
  obtain ⟨three, seen'⟩ := of_decide_eq_true after
  have two : cfg.shared.tables.accounts.length = 2 := by
    simpa [storedBalances] using congrArg List.length queried
  have first := iterates_passing run (List.mem_cons_self : _ ∈ caches cfg more)
  have second := iterates_passing (run.append later) (last_mem_caches later)
  have counted : checkCacheConsistency (.ok (storedBalances cfg.shared.tables)) (passing cfg)
      (passing cfg') none = some 2 := by
    rw [queried, seen, seen']
    decide
  obtain ⟨mismatches, checked, -, most⟩ := cache_alarms run later first second none
  cases counted.symm.trans checked
  exact ⟨trace, cfg, more, cfg', _, _, run, later, first, second, counted, by omega, by omega⟩

section Together

section Tables

variable {t : Tables} {ids : Sequences} (book : Consistent t ids)
include book

/-- The rows of an account, debits less credits and seen from the normal side of the account, are
    its balance. -/
private theorem sign_mul_rowSum (status a : Int) :
    (t.normal a).sign * (rowSum status 1 (t.entries.filter fun e => e.accountId = a) -
        rowSum status 2 (t.entries.filter fun e => e.accountId = a)) =
      balance t.normal (t.linesAt status) a := by
  rw [mul_sub, sub_eq_iff_eq_add, Tables.balance_linesAt, rowSum, rowSum, sum_filter, sum_filter,
    ← List.sum_map_mul_left, ← List.sum_map_mul_left, ← List.sum_map_add]
  refine congrArg List.sum (List.map_congr_left fun e member => ?_)
  have type := (book.entryRows e member).1.entryType
  by_cases here : e.accountId = a
  · subst here
    by_cases counted : e.status = status
    · rcases type with debit | credit
      · simp [EntryRow.share, EntryRow.line, Line.delta, counted, debit]
      · simp [EntryRow.share, EntryRow.line, Line.delta, counted, credit]
    · simp [counted]
  · simp [EntryRow.share, EntryRow.line, here]

/-- The checker expects of an account the balance that its entries give. -/
private theorem expected_of_exact {row : AccountRow} (member : row ∈ t.accounts)
    {status value : Int} (exact : value = balance t.normal (t.linesAt status) row.id)
    (fits : Fits 64 value) :
    expectedBalance (isDebitNormal row.accountType)
      (rowSum status 1 (t.entries.filter fun e => e.accountId = row.id))
      (rowSum status 2 (t.entries.filter fun e => e.accountId = row.id)) = some value := by
  have weighed := sign_mul_rowSum book status row.id
  rw [← exact, Tables.normal, book.account?_of_mem member] at weighed
  generalize rowSum status 1 _ = debits at weighed ⊢
  generalize rowSum status 2 _ = credits at weighed ⊢
  by_cases normal : row.accountType = 1 ∨ row.accountType = 5
  · simp only [AccountRow.side, if_pos normal, Side.sign_debit, one_mul] at weighed
    simp [expectedBalance, isDebitNormal, checkedSub, normal, weighed, fits]
  · have turned : credits - debits = value := by
      simp only [AccountRow.side, if_neg normal, Side.sign_credit] at weighed
      omega
    simp [expectedBalance, isDebitNormal, checkedSub, normal, turned, fits]

/-- No account is reported where the columns are exact. -/
private theorem accounts_reconciled (exact : Exact t)
    (fits : ∀ side, standingTotal side t ≤ hi 64) (gauges : Gauges) :
    checkAccountBalances t gauges = some { gauges with accountMismatches := some 0 } := by
  let columns (row : AccountRow) : AccountBalance := ⟨row.postedBalance, row.pendingBalance, 0⟩
  have expected : ∀ row ∈ t.accounts,
      expectedBalance (isDebitNormal row.accountType) (reconciled t row).postedDebits
        (reconciled t row).postedCredits = some (columns row).posted ∧
      expectedBalance (isDebitNormal row.accountType) (reconciled t row).pendingDebits
        (reconciled t row).pendingCredits = some (columns row).pending := by
    intro row member
    obtain ⟨posted, pending⟩ := exact row member
    obtain ⟨sound, -⟩ := book.accountRows row member
    exact ⟨expected_of_exact book member posted sound.posted,
      expected_of_exact book member pending sound.pending⟩
  have counted : countMismatches (t.accounts.map (reconciled t)) 0 = some 0 := by
    rw [countMismatches_eq expected]
    simp [columns]
  rw [checkAccountBalances, accountBalances_eq book.constrained fun row _ =>
    sumsFit_of_totals book (fits .debit) (fits .credit) row]
  simp only [counted, Option.bind_eq_bind, Option.bind_some, Option.pure_def]

/-- The totals of the book are equal. -/
private theorem global_balanced (fits : ∀ side, standingTotal side t ≤ hi 64) (gauges : Gauges) :
    checkGlobalBalance t gauges = some { gauges with globalBalanced := some 1 } := by
  have balanced := standing_balanced book (fun _ => true) fun row member => by
    simpa using (book.lines row member).balanced
  rw [List.filter_true] at balanced
  rw [checkGlobalBalance, globalTotals_eq book, if_pos ⟨fits .debit, fits .credit⟩]
  exact if_pos balanced

end Tables

/-- Where nobody owes the cache an account or an update, it shows every account as it is stored. -/
private theorem even_cached (run : Steps initial trace cfg)
    (lands : ∀ moved ∈ trace, keepsCache moved = true ∧ findsAccount moved = true ∧
      staysInRange moved = true)
    (even : ∀ thread ∈ cfg.threads, missing thread.own = [] ∧ owed thread.own = [])
    {row : AccountRow} (member : row ∈ cfg.shared.tables.accounts) :
    cfg.shared.cache.balances ⟨row.id⟩ = some ⟨row.postedBalance, row.pendingBalance⟩ := by
  have opened : cfg.total (fun l => openings row.id l.effects) ≠ 0 := by
    rw [openings_steps run, (safe run).inv.account?_of_mem member]
    exact one_ne_zero
  obtain ⟨i, thread, found, counted⟩ := Config.exists_of_total opened
  -- What the session has opened and does not miss is what it has put into the cache.
  have seeded : (⟨row.id⟩ : AccountId) ∈ thread.own.summary.seeded := by
    have all : thread.own.summary.seeded = thread.own.effects.opened :=
      (paid_steps run i thread found).seeded.eq_of_length_le
        (List.drop_eq_nil_iff.mp (even thread (List.mem_of_getElem? found)).1)
    rw [all]
    simpa [openings, List.count_eq_zero] using counted
  have shown : (cfg.shared.cache.balances ⟨row.id⟩).isSome := by
    by_contra absent
    have bound := Config.le_total (f := fun l : Session => (l.summary.seeded.count ⟨row.id⟩ : Int))
      (fun l => by simp) found
    rw [seeded_steps run (fun moved taken => (lands moved taken).1), if_neg absent] at bound
    have positive := List.count_pos_iff.mpr seeded
    omega
  obtain ⟨cached, present⟩ := Option.isSome_iff_exists.mp shown
  rw [present, agrees run lands member present]
  intro thread inside
  simp [(even thread inside).2]

/-- No gauge raises an alarm in a run in which no status is changed too late and every update
    reaches the cache: neither of the first two at any time, as long as the totals are within a
    `BIGINT`, nor the third, its query and its passes at one moment, whenever nobody owes the
    cache anything. -/
theorem gauges_clean {cfg'' : Config server} {rest : List (Transition server)}
    (run : Steps initial trace cfg) (later : Steps cfg more cfg') (last : Steps cfg' rest cfg'')
    (inTime : ∀ moved ∈ trace ++ more, timely moved = true)
    (lands : ∀ moved ∈ trace ++ more ++ rest, keepsCache moved = true ∧
      findsAccount moved = true ∧ staysInRange moved = true)
    (fits : ∀ side, standingTotal side cfg.shared.tables ≤ hi 64)
    (fits' : ∀ side, standingTotal side cfg'.shared.tables ≤ hi 64)
    (even : ∀ thread ∈ cfg''.threads, missing thread.own = [] ∧ owed thread.own = [])
    {first second : List CacheEntry} (pass : Iterates [cfg''.shared.cache] first)
    (again : Iterates [cfg''.shared.cache] second) (readings : Readings) :
    runAllChecks cfg.shared.tables cfg'.shared.tables (.ok (storedBalances cfg''.shared.tables))
      first second readings = some ⟨⟨some 1, some 0⟩, some 0⟩ := by
  have reached := (run.append later).append last
  have known : cfg''.shared.tables.accounts.countP (fun row =>
      cacheMap first row.id ≠ some (row.postedBalance, row.pendingBalance)) = 0 := by
    refine List.countP_eq_zero.mpr fun row member => ?_
    obtain ⟨cache, there, seen⟩ := pass.cacheMap row.id
    cases List.mem_singleton.mp there
    simp [seen, even_cached reached lands even member]
  have unknown := unknown_opened reached .refl again
  have cached := checkCacheConsistency_eq cfg''.shared.tables first second readings.cacheMismatches
  rw [known, Nat.le_zero.mp (Nat.le_of_add_le_add_left unknown)] at cached
  rw [runAllChecks, global_balanced (safe run).inv fits]
  simp only [Option.bind_eq_bind, Option.bind_some]
  rw [accounts_reconciled (safe (run.append later)).inv (timely_exact (run.append later) inTime)
    fits', Option.bind_some, cached]
  rfl

/-- A deposit is captured between the first check and the second. -/
theorem gauges_clean_capture : ∃ trace cfg more cfg' entries, Steps initial trace cfg ∧
    Steps cfg more cfg' ∧ cfg.shared.tables ≠ cfg'.shared.tables ∧
    Iterates [cfg'.shared.cache] entries ∧
    runAllChecks cfg.shared.tables cfg'.shared.tables (.ok (storedBalances cfg'.shared.tables))
      entries entries ⟨⟨none, none⟩, none⟩ = some ⟨⟨some 1, some 0⟩, some 0⟩ := by
  obtain ⟨trace, cfg, more, cfg', run, later, all, before, after⟩ := reached_twice (fun moved =>
      timely moved && (keepsCache moved && (findsAccount moved && staysInRange moved)))
    (deposit ("USD", "USD")) (.request (.capture 1 5) :: turns 3 12)
    (fun cfg => (standingTotal .debit cfg.shared.tables, standingTotal .credit cfg.shared.tables,
      cfg.shared.tables.accounts.map AccountRow.postedBalance))
    (fun cfg => (standingTotal .debit cfg.shared.tables, standingTotal .credit cfg.shared.tables,
      cfg.shared.tables.accounts.map AccountRow.postedBalance,
      cfg.threads.all fun thread => decide (missing thread.own = [] ∧ owed thread.own = [])))
    (a := (100, 100, [0, 0])) (b := (100, 100, [100, 100], true)) (by decide +kernel)
  simp only [Prod.mk.injEq] at before after
  obtain ⟨debits, credits, held⟩ := before
  obtain ⟨debits', credits', posted, even⟩ := after
  simp only [Bool.and_eq_true] at all
  simp only [List.all_eq_true, decide_eq_true_eq] at even
  have pass := iterates_passing (run.append later) (List.mem_singleton_self cfg'.shared.cache)
  refine ⟨trace, cfg, more, cfg', _, run, later, fun same => ?_, pass, ?_⟩
  · rw [same, posted] at held
    cases held
  · refine gauges_clean run later .refl (fun moved taken => (all moved taken).1)
      (fun moved taken => (all moved (by simpa using taken)).2) (fun side => ?_) (fun side => ?_)
      even pass pass _
    · cases side with
      | debit => simp [debits, hi]
      | credit => simp [credits, hi]
    · cases side with
      | debit => simp [debits', hi]
      | credit => simp [credits', hi]

end Together

end Fides.Ledger
