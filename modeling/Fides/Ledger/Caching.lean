import Fides.Concurrency.Serial
import Fides.Ledger.Settlements

/-! # The cache in serial runs

A handler commits first and then brings the cache up to date, one account after
the other.  When requests are served one at a time, the cache therefore differs
from the accounts table only by what the running session still owes it, and a
restart makes up for what a crash has lost.
-/

namespace Fides.Storage

open Domain Service FixedWidth Relational

/-- The cache for these tables, but for the accounts that are missing in it and the
    updates that have not reached it. -/
def Tables.cached (t : Tables) (missing : List AccountId) (owed : List BalanceUpdate) :
    BalanceCache :=
  ⟨fun id => if id ∈ missing then none else (t.account? id.value).map fun row =>
    ⟨row.postedBalance - ((find owed id.value).elim 0 BalanceUpdate.postedDelta),
      row.pendingBalance - ((find owed id.value).elim 0 BalanceUpdate.pendingDelta)⟩⟩

namespace Tables

variable {t : Tables}

theorem cached_enroll {row : AccountRow} (fresh : t.account? row.id = none) :
    (t.enroll row).cached [⟨row.id⟩] [] = t.cached [] [] := by
  refine congrArg BalanceCache.mk (funext fun id => ?_)
  by_cases here : row.id = id.value
  · have same : id = ⟨row.id⟩ := AccountId.ext_value here.symm
    simp [same, fresh]
  · have other : id ≠ ⟨row.id⟩ := fun same => here (by rw [same])
    simp [other, account?_enroll, here]

/-- What an update adds to the rows it is still owed to the cache. -/
theorem cached_updated {t' : Tables} {updates : List BalanceUpdate}
    (accounts : ∀ a, t'.account? a = (t.account? a).map (AccountRow.updated updates)) :
    t'.cached [] updates = t.cached [] [] := by
  refine congrArg BalanceCache.mk (funext fun id => ?_)
  simp only [accounts, Option.map_map]
  cases found : t.account? id.value with
  | none => rfl
  | some row =>
      have same : row.id = id.value := key_of_find found
      simp only [Option.map_some, Function.comp, AccountRow.updated, same]
      cases find updates id.value <;> simp [AccountRow.bump]

theorem get_cached (t : Tables) (id : AccountId) : (t.cached [] []).get id =
    (t.account? id.value).map fun row => ⟨row.postedBalance, row.pendingBalance,
      saturatingSub 64 row.postedBalance row.pendingBalance⟩ := by
  simp [BalanceCache.get, cached, Function.comp_def]

theorem set_cached {id : AccountId} {row : AccountRow} (found : t.account? id.value = some row)
    (empty : row.postedBalance = 0 ∧ row.pendingBalance = 0) :
    (t.cached [id] []).set id 0 0 = t.cached [] [] := by
  refine congrArg BalanceCache.mk (funext fun other => ?_)
  by_cases here : other = id
  · simp [here, found, empty]
  · simp [here, cached]

theorem applyDelta_cached {missing : List AccountId} {update : BalanceUpdate}
    {owed : List BalanceUpdate} (sound : ∀ row ∈ t.accounts, row.Sound)
    (distinct : Distinct (update :: owed)) :
    (t.cached missing (update :: owed)).applyDelta update.accountId update.postedDelta
      update.pendingDelta = t.cached missing owed := by
  obtain ⟨gone, -⟩ := List.nodup_cons.mp distinct
  refine congrArg BalanceCache.mk (funext fun id => ?_)
  by_cases absent : id ∈ missing
  · simp [cached, absent]
  by_cases here : id = update.accountId
  · subst here
    have none : find owed update.accountId.value = none := find_eq_none.mpr fun other member same =>
      gone (List.mem_map.mpr ⟨other, member, same⟩)
    have first : find (update :: owed) update.accountId.value = some update := by
      rw [find_cons]
      exact if_pos rfl
    cases found : t.account? update.accountId.value with
    | none => simp [cached, absent, found]
    | some row =>
        obtain ⟨posted, pending⟩ : Fits 64 row.postedBalance ∧ Fits 64 row.pendingBalance :=
          ⟨(sound row (mem_of_find found)).posted, (sound row (mem_of_find found)).pending⟩
        simp [cached, absent, found, first, none, saturatingAdd, clamp_of_fits posted,
          clamp_of_fits pending]
  · have other : update.accountId.value ≠ id.value := fun same =>
      here (AccountId.ext_value same.symm)
    have same : find (update :: owed) id.value = find owed id.value := by
      rw [find_cons]
      exact if_neg other
    simp [cached, absent, here, same]

private theorem balances_rehydrate (cache : BalanceCache) {rows : List AccountRow}
    (distinct : Distinct rows) (id : AccountId) :
    (cache.rehydrate (rows.map fun row =>
      (⟨row.id⟩, row.postedBalance, row.pendingBalance))).balances id =
      ((find rows id.value).map fun row => ⟨row.postedBalance, row.pendingBalance⟩).or
        (cache.balances id) := by
  induction rows generalizing cache with
  | nil => rfl
  | cons row rows ih =>
      obtain ⟨gone, rest⟩ := List.nodup_cons.mp distinct
      rw [List.map_cons, BalanceCache.rehydrate, ih _ rest, find_cons]
      by_cases here : key row = id.value
      · have same : id = ⟨row.id⟩ := AccountId.ext_value here.symm
        have none : find rows id.value = none := find_eq_none.mpr fun other member there =>
          gone (List.mem_map.mpr ⟨other, member, there.trans here.symm⟩)
        rw [if_pos here, none]
        simp [BalanceCache.set, same]
      · have other : id ≠ ⟨row.id⟩ := fun same => here (by rw [same]; rfl)
        rw [if_neg here]
        simp [BalanceCache.set, other]

end Tables
end Fides.Storage

namespace Fides.Ledger

open Domain Service Storage FixedWidth Relational Bookkeeping Concurrency

variable {w : World} {l : Session}

/-- A restart fills the cache with what the accounts table says. -/
theorem restart_cached (book : Consistent w.tables w.sequences) :
    (restart w).cache = w.tables.cached [] [] := by
  refine congrArg BalanceCache.mk (funext fun id => ?_)
  have filled := Tables.balances_rehydrate .new book.accounts id
  simpa [BalanceCache.new, loadAllBalances, World.tables, Tables.account?] using filled

/-- The accounts that a session has committed and not yet put into the cache. -/
def missing (l : Session) : List AccountId := l.effects.opened.drop l.summary.seeded.length

/-- The updates that a session has committed and not yet applied to the cache. -/
def owed (l : Session) : List BalanceUpdate := l.effects.written.drop l.summary.applied.length

theorem SettledUp.owes_nothing (settled : SettledUp l) : missing l = [] ∧ owed l = [] := by
  unfold missing owed Session.effects
  split
  · rename_i committed
    obtain ⟨applied, seeded⟩ := settled committed
    simp [applied, seeded]
  · simp [Summary.blank]

/-- Where a session is while it is the only one. -/
structure Busy (w : World) (l : Session) : Prop where
  cache : w.cache = w.tables.cached (missing l) (owed l)
  empty : ∀ id ∈ missing l, ∃ row, w.tables.account? id.value = some row ∧
    row.postedBalance = 0 ∧ row.pendingBalance = 0
  distinct : Distinct (owed l)
  -- What it has read stands until it commits.
  statuses : l.summary.committed = false → ∀ id (transaction : Transaction),
    (⟨.getTransaction id, .ok (some transaction)⟩ : Answered) ∈ l.history →
      Stands w id transaction.status
  balances : l.summary.committed = false → ∀ id balance,
    (⟨.cacheGet id, some balance⟩ : Answered) ∈ l.history → w.cache.get id = some balance

/-- The calls that write to the cache. -/
def writesCache : Call → Bool
  | .cacheApplyDelta .. | .cacheSet .. => true
  | _ => false

theorem add_unwritten {c : Call} (s : Summary) (answer : c.Result)
    (other : writesCache c = false) :
    (s.add c answer).seeded = s.seeded ∧ (s.add c answer).applied = s.applied := by
  unfold Summary.add
  split <;> first | exact ⟨rfl, rfl⟩ | cases other

section Step

variable {w' : World} {l' : Session} {weather : Weather} {c : Call} {answer : c.Result}

/-- A call that neither commits nor writes to the cache changes nothing for others. -/
theorem unwritten_call (other : writesCache c = false)
    (apart : (⟨c, answer⟩ : Answered) ≠ ⟨.commit, .ok ()⟩)
    (ran : exec weather c w l = some (answer, w', l')) :
    w'.tables = w.tables ∧ w'.cache = w.cache := by
  refine ⟨exec_tables ran apart, ?_⟩
  obtain ⟨tx, does, -⟩ := exec_does ran
  cases does with
  | commit | give_up | statement => rfl
  | apply made | seed made =>
      cases made
      cases other

theorem Busy.read (busy : Busy w l) (allowed : Allowed w l c)
    (ran : exec weather c w l = some (answer, w', l')) (other : writesCache c = false)
    (apart : (⟨c, answer⟩ : Answered) ≠ ⟨.commit, .ok ()⟩) : Busy w' l' := by
  obtain ⟨tables, cache⟩ := unwritten_call other apart ran
  obtain ⟨tx, -, rfl⟩ := exec_does ran
  obtain ⟨seeded, applied⟩ := add_unwritten l.summary answer other
  have effects := effects_record tx allowed apart
  have missing_eq : missing (l.record c answer tx) = missing l := by
    rw [missing, effects, Session.summary_record, seeded, missing]
  have owed_eq : owed (l.record c answer tx) = owed l := by
    rw [owed, effects, Session.summary_record, applied, owed]
  have committed_eq : (l.record c answer tx).summary.committed = l.summary.committed := by
    have same := congrArg Summary.committed effects
    rwa [Session.committed_effects, Session.committed_effects] at same
  constructor
  · rw [missing_eq, owed_eq, tables, cache]
    exact busy.cache
  · rw [missing_eq, tables]
    exact busy.empty
  · rw [owed_eq]
    exact busy.distinct
  · intro uncommitted id transaction seen
    rw [committed_eq] at uncommitted
    rcases List.mem_append.mp seen with old | new
    · obtain ⟨row, found, same⟩ := busy.statuses uncommitted id transaction old
      exact ⟨row, tables ▸ found, same⟩
    · cases List.mem_singleton.mp new
      exact stands_of_read allowed ran
  · intro uncommitted id balance seen
    rw [committed_eq] at uncommitted
    rcases List.mem_append.mp seen with old | new
    · rw [cache]
      exact busy.balances uncommitted id balance old
    · cases List.mem_singleton.mp new
      cases weather with
      | fair =>
          obtain ⟨_, out, -⟩ := exec_eq_some ran
          rw [cache]
          exact congrArg Prod.fst (Option.some.inj out)
      | fault => cases ran

theorem Busy.commit (book : Consistent w.tables w.sequences) (ready : Ready w l)
    (busy : Busy w l) : Busy { w with database := (Storage.commit w.database l.tx).1 }
      (l.record .commit (.ok ()) .idle) := by
  obtain ⟨uncommitted, unseeded, unapplied⟩ := ready.uncommitted
  obtain ⟨before, after⟩ := ready.effects .idle
  have cache : w.cache = w.tables.cached [] [] := by
    rw [busy.cache, missing, owed, before, unseeded, unapplied]
    rfl
  have missing_eq : missing (l.record .commit (.ok ()) .idle) = l.summary.opened := by
    simp [missing, after, Summary.add, unseeded]
  have owed_eq : owed (l.record .commit (.ok ()) .idle) = l.summary.written := by
    simp [owed, after, Summary.add, unapplied]
  have committed : (l.record .commit (.ok ()) .idle).summary.committed = true := by
    simp [Summary.add]
  suffices behind : (w.tables.merge l.tx.versions).cached l.summary.opened l.summary.written =
      w.tables.cached [] [] ∧ (∀ id ∈ l.summary.opened, ∃ row,
        (w.tables.merge l.tx.versions).account? id.value = some row ∧
          row.postedBalance = 0 ∧ row.pendingBalance = 0) ∧ Distinct l.summary.written by
    refine ⟨?_, ?_, ?_, fun unwritten => ?_, fun unwritten => ?_⟩
    · rw [missing_eq, owed_eq]
      exact cache.trans behind.1.symm
    · rw [missing_eq]
      exact behind.2.1
    · rw [owed_eq]
      exact behind.2.2
    all_goals
      rw [committed] at unwritten
      cases unwritten
  cases ready with
  | reading versions summary =>
      rw [versions, summary]
      exact ⟨rfl, by simp [Summary.blank], .nil⟩
  | @enrolling _ _ row _ enrolls versions summary =>
      rw [versions, summary, merge_enroll enrolls]
      refine ⟨Tables.cached_enroll enrolls.fresh, fun id member => ?_, .nil⟩
      cases List.mem_singleton.mp member
      refine ⟨row, ?_, enrolls.empty.1, enrolls.empty.2.1⟩
      rw [Tables.account?_enroll, enrolls.fresh, if_pos rfl, Option.none_or]
  | @holding _ _ _ row rows updates _ _ _ _ _ holds _ versions summary =>
      rw [versions, summary, merge_hold book holds]
      exact ⟨Tables.cached_updated (w.tables.account?_hold updates row rows),
        by simp [Summary.blank], holds.nets.distinct⟩
  | settling _ settles found versions summary =>
      rw [versions, summary, merge_settle book settles found]
      exact ⟨Tables.cached_updated (w.tables.account?_settle _ _ _ _),
        by simp [Summary.blank], settles.nets.distinct⟩

theorem Busy.seed {id : AccountId} {posted pending : Int}
    (allowed : Allowed w l (.cacheSet id posted pending)) (busy : Busy w l) (tx : Tx) :
    Busy { w with cache := w.cache.set id posted pending }
      (l.record (.cacheSet id posted pending) () tx) := by
  obtain ⟨summary, rfl, rfl, -⟩ := allowed
  have before : missing l = [id] ∧ owed l = [] := by
    simp [missing, owed, Session.effects, summary, Summary.blank]
  have after : missing (l.record (.cacheSet id 0 0) () tx) = [] ∧
      owed (l.record (.cacheSet id 0 0) () tx) = [] := by
    simp [missing, owed, Session.effects, summary, Summary.add, Summary.blank]
  obtain ⟨row, found, empty⟩ := busy.empty id (by simp [before])
  refine ⟨?_, by simp [after], by simp [after, Distinct], fun uncommitted => ?_,
    fun uncommitted => ?_⟩
  · have cache := busy.cache
    rw [before.1, before.2] at cache
    rw [after.1, after.2]
    change w.cache.set id 0 0 = w.tables.cached [] []
    rw [cache]
    exact Tables.set_cached found empty
  all_goals simp [summary, Summary.add] at uncommitted

theorem Busy.apply {id : AccountId} {posted pending : Int}
    (book : Consistent w.tables w.sequences)
    (allowed : Allowed w l (.cacheApplyDelta id posted pending)) (busy : Busy w l) (tx : Tx) :
    Busy { w with cache := w.cache.applyDelta id posted pending }
      (l.record (.cacheApplyDelta id posted pending) () tx) := by
  obtain ⟨committed, rest, written⟩ := allowed
  have before : owed l = ⟨id, posted, pending⟩ :: rest := by
    simp [owed, Session.effects, committed, ← written]
  have after : missing (l.record (.cacheApplyDelta id posted pending) () tx) = missing l ∧
      owed (l.record (.cacheApplyDelta id posted pending) () tx) = rest := by
    simp [missing, owed, Session.effects, committed, Summary.add, ← written]
  have distinct : Distinct (⟨id, posted, pending⟩ :: rest) := before ▸ busy.distinct
  refine ⟨?_, ?_, ?_, fun uncommitted => ?_, fun uncommitted => ?_⟩
  · have cache := busy.cache
    rw [before] at cache
    rw [after.1, after.2]
    change w.cache.applyDelta id posted pending = w.tables.cached (missing l) rest
    rw [cache]
    exact Tables.applyDelta_cached (fun row member => (book.accountRows row member).1) distinct
  · rw [after.1]
    exact busy.empty
  · rw [after.2]
    exact (List.nodup_cons.mp distinct).2
  all_goals simp [committed, Summary.add] at uncommitted

theorem Busy.call (book : Consistent w.tables w.sequences) (allowed : Allowed w l c)
    (busy : Busy w l) (ran : exec weather c w l = some (answer, w', l')) : Busy w' l' := by
  cases c with
  | commit =>
      cases weather with
      | fair =>
          cases ran
          exact busy.commit book allowed
      | fault message =>
          refine busy.read allowed ran rfl ?_
          cases ran
          exact nofun
  | cacheSet id posted pending =>
      cases weather with
      | fair =>
          cases ran
          exact busy.seed allowed _
      | fault => cases ran
  | cacheApplyDelta id posted pending =>
      cases weather with
      | fair =>
          cases ran
          exact busy.apply book allowed _
      | fault => cases ran
  | _ => exact busy.read allowed ran rfl nofun

end Step

/-- The balance that a session has read before it commits is that of the accounts table. -/
theorem Busy.known (busy : Busy w l) (uncommitted : l.summary.committed = false) {id : AccountId}
    {balance : AccountBalance} (seen : (⟨.cacheGet id, some balance⟩ : Answered) ∈ l.history) :
    ∃ row, w.tables.account? id.value = some row ∧ balance = ⟨row.postedBalance,
      row.pendingBalance, saturatingSub 64 row.postedBalance row.pendingBalance⟩ := by
  have nothing : missing l = [] ∧ owed l = [] := by
    simp [missing, owed, Session.effects, uncommitted, Summary.blank]
  have known := busy.balances uncommitted id balance seen
  rw [busy.cache, nothing.1, nothing.2, Tables.get_cached, Option.map_eq_some_iff] at known
  obtain ⟨row, found, rfl⟩ := known
  exact ⟨row, found, rfl⟩

theorem Busy.idle (busy : Busy w l) (nothing : missing l = [] ∧ owed l = []) :
    w.cache = w.tables.cached [] [] := by
  rw [busy.cache, nothing.1, nothing.2]

/-- Between requests the cache is what the accounts table says. -/
def upToDate : Turns protocol where
  idle w := w.cache = w.tables.cached [] []
  busy := Busy
  arrive _ idle := ⟨idle, nofun, .nil, fun _ _ _ => nofun, fun _ _ _ => nofun⟩
  exec book allowed busy ran := busy.call book allowed.2 ran
  finish promise busy := busy.idle promise.1.owes_nothing
  restart := restart_cached

variable {cfg next : Config server} {event : Event server} {trace : List (Transition server)}

theorem upToDate_initial : upToDate.Holds initial := by
  refine .quiet rfl (congrArg BalanceCache.mk (funext fun id => ?_))
  simp [Tables.account?, initial, World.initial, World.tables, Tables.empty]

theorem serial_upToDate (run : Steps initial trace cfg)
    (one : ∀ moved ∈ trace, serial moved = true) : upToDate.Holds cfg :=
  upToDate_initial.steps checked (safe .refl) run one

/-- What a settlement has read is still true when it is the only one. -/
theorem timely_of_upToDate (safe : protocol.Safe cfg) (holds : upToDate.Holds cfg) :
    timely ⟨cfg, event, next⟩ = true := by
  unfold timely
  split
  · split
    · rename_i found
      obtain ⟨uncommitted, -, -, transaction, pending, seen⟩ := (safe.pre found).2
      obtain ⟨row, there, same⟩ := (holds.alone found).1.statuses uncommitted _ transaction seen
      rw [pending] at same
      simpa [there, transactionStatusToI16] using same
    · rfl
  · rfl

theorem serial_timely (run : Steps initial trace cfg)
    (one : ∀ moved ∈ trace, serial moved = true) : ∀ moved ∈ trace, timely moved = true := by
  intro moved member
  obtain ⟨earlier, later, rfl, reached, -⟩ := run.split member
  have before := serial_upToDate reached fun moved member =>
    one moved (List.mem_append_left _ member)
  exact timely_of_upToDate (safe reached) before

section Abandoned

/-- Everything that the session has committed is in the cache. -/
def owesNothing (l : Session) : Bool := decide (missing l = [] ∧ owed l = [])

/-- Requests that are dropped do not put the cache out of step, unless they are dropped
    between their commit and their last update of the cache. -/
theorem abandoned_cached (run : Steps initial trace cfg)
    (one : ∀ moved ∈ trace, serialBut owesNothing moved = true) (quiet : cfg.quiet = true) :
    ∀ row ∈ cfg.shared.tables.accounts,
      cfg.shared.cache.balances ⟨row.id⟩ = some ⟨row.postedBalance, row.pendingBalance⟩ := by
  have quits : ∀ {w : World} {l : Session}, owesNothing l = true → upToDate.busy w l →
      upToDate.idle w := fun owes busy => Busy.idle busy (of_decide_eq_true owes)
  have holds := upToDate_initial.steps_but owesNothing quits checked (safe .refl) run one
  intro row member
  have cache : cfg.shared.cache = cfg.shared.tables.cached [] [] := holds.idle quiet
  simp [cache, Tables.cached, (safe run).inv.account?_of_mem member]

/-- A deposit is dropped before its commit, and made again. -/
theorem abandoned_cached_retried : ∃ trace cfg, Steps initial trace cfg ∧
    cfg.shared.cache.balances ⟨1⟩ = some ⟨0, 100⟩ ∧
    ∀ row ∈ cfg.shared.tables.accounts,
      cfg.shared.cache.balances ⟨row.id⟩ = some ⟨row.postedBalance, row.pendingBalance⟩ := by
  obtain ⟨trace, cfg, run, one, computed⟩ := reached (serialBut owesNothing)
    ((deposit ("USD", "USD")).take 20 ++ .drop 2 ::
      .request (.authorize ⟨"deposit", [⟨1, 1, 100⟩, ⟨2, 2, 100⟩], ⟨"", .error ""⟩⟩ 2) :: turns 3 12)
    (fun cfg => (cfg.quiet, cfg.shared.cache.balances ⟨1⟩)) (a := (true, some ⟨0, 100⟩))
    (by decide +kernel)
  obtain ⟨quiet, shown⟩ := Prod.mk.inj computed
  exact ⟨trace, cfg, run, shown, abandoned_cached run one quiet⟩

/-- A deposit is dropped while it waits for its commit, which takes effect. -/
theorem abandoned_uncached : ∃ trace cfg, Steps initial trace cfg ∧
    (∀ moved ∈ trace, serialBut (fun _ => true) moved = true) ∧ cfg.quiet = true ∧
    ∃ row ∈ cfg.shared.tables.accounts, row.pendingBalance = 100 ∧
      cfg.shared.cache.balances ⟨row.id⟩ = some ⟨0, 0⟩ := by
  obtain ⟨trace, cfg, run, one, computed⟩ := reached (serialBut fun _ => true)
    ((deposit ("USD", "USD")).take 21 ++ [.drop 2])
    (fun cfg => (cfg.quiet, (cfg.shared.tables.account? 1).map AccountRow.pendingBalance,
      cfg.shared.cache.balances ⟨1⟩)) (a := (true, some 100, some ⟨0, 0⟩)) (by decide +kernel)
  simp only [Prod.mk.injEq, Option.map_eq_some_iff] at computed
  obtain ⟨quiet, ⟨row, found, pending⟩, shown⟩ := computed
  have same : row.id = 1 := key_of_find found
  exact ⟨trace, cfg, run, one, quiet, row, mem_of_find found, pending, by rw [same, shown]⟩

end Abandoned

section Balances

/-- The answer to `getBalance` is what the cache has. -/
theorem serve_getBalance (quiet : cfg.quiet = true) {a : Int} (positive : 0 < a) :
    cfg.serve (.getBalance a) [.fair] = some (match cfg.shared.cache.get ⟨a⟩ with
      | none => .error (.error (.accountNotFound a))
      | some balance => .ok (.balance balance.posted balance.pending balance.available)) := by
  have program : getBalance a = .call (.cacheGet ⟨a⟩) fun
      | none => .done (.error (.error (.accountNotFound a)))
      | some balance => .done (.ok (.balance balance.posted balance.pending balance.available)) := by
    have new : AccountId.new a = .ok ⟨a⟩ := if_neg (not_le.mpr positive)
    unfold getBalance
    rw [new]
    refine congrArg (Prog.call _) (funext fun answer => ?_)
    cases answer <;> rfl
  refine Config.serve_one quiet program (fun _ => rfl) rfl ?_
  cases cfg.shared.cache.get ⟨a⟩ <;> rfl

/-- In serial runs with crashes, `getBalance` finds the accounts of the book and no others,
    and answers with the exact sums of their entries. -/
theorem balance_served (run : Steps initial trace cfg)
    (one : ∀ moved ∈ trace, serial moved = true) (quiet : cfg.quiet = true) {a : Int}
    (positive : 0 < a) :
    (cfg.serve (.getBalance a) [.fair] = some (.error (.error (.accountNotFound a))) ↔
      cfg.shared.tables.account? a = none) ∧
    ∀ row, cfg.shared.tables.account? a = some row →
      ∃ account entries, ∃ balance : AccountBalance,
      buildAccount row = .ok account ∧
      (getEntriesForAccount ⟨a⟩ cfg.shared.database .idle).1 = .ok entries ∧
      cfg.serve (.getBalance a) [.fair] =
        some (.ok (.balance balance.posted balance.pending balance.available)) ∧
      balance.posted = deltaSum account.normalBalance .posted entries ∧
      balance.pending = deltaSum account.normalBalance .pending entries ∧
      ∀ computed, computeAccountBalance account.normalBalance entries = .ok computed →
        balance = computed := by
  have cache : cfg.shared.cache = cfg.shared.tables.cached [] [] :=
    (serial_upToDate run one).idle quiet
  rw [serve_getBalance quiet positive, cache, Tables.get_cached]
  cases found : cfg.shared.tables.account? a with
  | none => simp
  | some row =>
      rw [Option.map_some]
      refine ⟨by simp, fun row' same => ?_⟩
      cases same
      have here : row.id = a := key_of_find found
      have book := (safe run).inv
      obtain ⟨account, entries, built, read, posted, pending⟩ :=
        (timely_exact run (serial_timely run one)).decoded book row (mem_of_find found)
      rw [here] at read
      refine ⟨account, entries, _, built, read, rfl, posted, pending, fun computed ran => ?_⟩
      have bounded := amounts_decoded book (fun e member => ?_) read
      · obtain ⟨posted', pending', fits, available⟩ := computeAccountBalance_ok bounded ran
        rw [← posted'] at posted
        rw [← pending'] at pending
        rw [posted, pending, saturatingSub, clamp_of_fits fits, ← available]
      · have sorting := List.perm_insertionSort (fun a b : EntryRow => a.id ≤ b.id)
          (cfg.shared.tables.entries.filter fun e => e.accountId = a)
        exact List.mem_of_mem_filter (sorting.mem_iff.mp member)

/-- A deposit is authorized and captured, with a crash before each is fully cached. -/
theorem balance_served_crashed : ∃ trace cfg row account entries, ∃ balance : AccountBalance,
    Steps initial trace cfg ∧ cfg.shared.tables.account? 1 = some row ∧ row.postedBalance = 100 ∧
    buildAccount row = .ok account ∧
    (getEntriesForAccount ⟨1⟩ cfg.shared.database .idle).1 = .ok entries ∧
    cfg.serve (.getBalance 1) [.fair] =
      some (.ok (.balance balance.posted balance.pending balance.available)) ∧
    balance.posted = deltaSum account.normalBalance .posted entries := by
  obtain ⟨trace, cfg, run, one, computed⟩ := reached serial
    ((deposit ("USD", "USD")).dropLast ++
      .crash :: .request (.capture 1 5) :: turns 3 11 ++ [.crash])
    (fun cfg => (cfg.quiet, (cfg.shared.tables.account? 1).map AccountRow.postedBalance))
    (a := (true, some 100)) (by decide +kernel)
  obtain ⟨quiet, column⟩ := Prod.mk.inj computed
  obtain ⟨row, found, posted⟩ := Option.map_eq_some_iff.mp column
  obtain ⟨account, entries, balance, built, read, served, sum, -⟩ :=
    (balance_served run one quiet (by decide : (0 : Int) < 1)).2 row found
  exact ⟨trace, cfg, row, account, entries, balance, run, found, posted, built, read, served, sum⟩

end Balances
end Fides.Ledger
