import Fides.Ledger.Exactness
import Fides.Ledger.Runs

/-! # Settlements

A settlement reads the status of its transaction before it locks anything, and
does not look again once it has the locks.  `timely` says of a transition what a
second look would have found: that the transaction is still pending when its
status is changed.  In runs of timely transitions the server refines the book in
which nothing is settled twice, so balances are exact and settlements final.  In
other runs, such as those of two overlapping settlements, they are not.
-/

namespace Fides.Ledger

open Domain Service Storage Relational Bookkeeping Concurrency

variable {cfg next : Config server} {event : Event server} {trace : List (Transition server)}

/-- A handler that changes the status of a transaction does so while the
    transaction is pending. -/
def timely (moved : Transition server) : Bool :=
  match moved.event with
  | .call i _ => match moved.before.threads[i]? with
      | some ⟨some (.call (.updateTransactionStatus id _ _) _), _⟩ =>
          (moved.before.shared.tables.transaction? id.value).all fun row => row.status = 1
      | _ => true
  | _ => true

/-- The transactions that a session has locked are pending. -/
def LocksPending (w : World) (l : Session) : Prop :=
  ∀ id row, .transaction id ∈ l.tx.held → w.tables.transaction? id = some row → row.status = 1

/-- Where a run is as long as its transitions are timely. -/
structure Steady (cfg : Config server) : Prop where
  safe : protocol.Safe cfg
  locks : ∀ (i : Nat) thread, cfg.threads[i]? = some thread → LocksPending cfg.shared thread.own

private theorem needs_transaction {c : Call} {view : Tables} {id : Int}
    (needed : .transaction id ∈ c.needs view) :
    ∃ status postedAt, c = .updateTransactionStatus ⟨id⟩ status postedAt := by
  cases c with
  | updateTransactionStatus target status postedAt =>
      cases List.mem_singleton.mp needed
      exact ⟨status, postedAt, rfl⟩
  | getAccountForUpdate | createTransaction =>
      simp only [Call.needs] at needed
      split at needed <;> simp at needed
  | _ => simp [Call.needs] at needed

namespace Steady

theorem initial : Steady initial := ⟨Ledger.safe .refl, nofun⟩

theorem step (steady : Steady cfg) (stepped : cfg.step event = some next)
    (time : timely ⟨cfg, event, next⟩ = true) : Steady next := by
  refine ⟨steady.safe.step checked stepped, ?_⟩
  refine steady.safe.all_step steady.locks stepped (fun _ => nofun) (fun _ _ => nofun)
    (fun _ _ => nofun) ?_ ?_
  · intro w l keeps holds id row held found
    rw [(keeps.transactions id held).1] at found
    exact holds id row held found
  · rintro i weather c rest own answer shared own' rfl found holds ran -
    obtain ⟨tx, does, rfl⟩ := exec_does ran
    cases does with
    | commit | give_up => exact nofun
    | apply | seed => exact holds
    | statement _ leaves =>
        intro id row held there
        obtain ⟨added, more, source⟩ := leaves.locks
        have before : cfg.shared.tables.transaction? id = some row := by
          rwa [World.tables, leaves.tables] at there
        rw [Session.tx_record, more] at held
        rcases List.mem_append.mp held with old | new
        · exact holds id row old before
        · rcases source _ new with ⟨needed, -⟩ | ⟨fresh, -⟩
          · obtain ⟨status, postedAt, rfl⟩ := needs_transaction needed
            simpa [timely, found, before] using time
          · have same : row.id = id := key_of_find before
            exact absurd (same ▸ (steady.safe.inv.transactionRows row (mem_of_find before)).2) fresh

/-- A transaction is still pending when its settlement commits. -/
theorem pending {own : Session} {id status : Int} {postedAt : Option Int} {row : TransactionRow}
    (steady : Steady cfg) (commits : Commits cfg next own)
    (written : { row with status := status, postedAt := postedAt } ∈ own.tx.versions.transactions)
    (found : cfg.shared.tables.transaction? id = some row) : row.status = 1 := by
  obtain ⟨i, rest, there, -⟩ := commits.thread
  have locked := commits.owns.guarded.transactions _ written
  change .transaction row.id ∈ own.tx.held at locked
  have same : row.id = id := key_of_find found
  exact steady.locks i _ there id row (same ▸ locked) found

/-- Refinement: a timely step leaves settled transactions alone. -/
theorem advanced (steady : Steady cfg) (stepped : cfg.step event = some next) :
    next.shared.tables = cfg.shared.tables ∨
      Advanced cfg.shared.tables cfg.shared.sequences next.shared.tables := by
  cases step_books steady.safe stepped with
  | nothing _ same => exact .inl same
  | enroll _ enrolls tables => exact .inr (tables ▸ .enroll enrolls)
  | hold _ _ _ _ holds tables => exact .inr (tables ▸ .hold holds)
  | settle _ commits settles found written tables =>
      exact .inr (tables ▸ .settle settles found (steady.pending commits written found))

/-- What is settled stays as it is. -/
theorem final (steady : Steady cfg) (stepped : cfg.step event = some next) {id : Int}
    {row : TransactionRow} (found : cfg.shared.tables.transaction? id = some row)
    (settled : row.status ≠ 1) :
    next.shared.tables.transaction? id = some row ∧
      next.shared.tables.entriesOf id = cfg.shared.tables.entriesOf id := by
  rcases steady.advanced stepped with same | moved
  · rw [same]
    exact ⟨found, rfl⟩
  · exact moved.final steady.safe.inv found settled

theorem steps {start : Config server} (steady : Steady start) (run : Steps start trace cfg)
    (all : ∀ moved ∈ trace, timely moved = true) : Steady cfg :=
  run.invariant (fun _ _ _ steady stepped time => steady.step stepped time) steady all

/-- What the moves of the advanced book keep holds along timely runs. -/
theorem invariant {start : Config server} {P : Tables → Prop} (steady : Steady start)
    (initially : P start.shared.tables)
    (keeps : ∀ t ids t', Consistent t ids → P t → Advanced t ids t' → P t')
    (run : Steps start trace cfg) (all : ∀ moved ∈ trace, timely moved = true) :
    P cfg.shared.tables := by
  have both : Steady cfg ∧ P cfg.shared.tables := by
    refine run.invariant (P := fun cfg => Steady cfg ∧ P cfg.shared.tables) ?_
      ⟨steady, initially⟩ all
    rintro before event after ⟨steady, holds⟩ stepped time
    refine ⟨steady.step stepped time, ?_⟩
    rcases steady.advanced stepped with same | moved
    · rw [same]
      exact holds
    · exact keeps _ _ _ steady.safe.inv holds moved
  exact both.2

theorem stays {start : Config server} (steady : Steady start) (run : Steps start trace cfg)
    (all : ∀ moved ∈ trace, timely moved = true) {id : Int} {row : TransactionRow}
    (found : start.shared.tables.transaction? id = some row) (settled : row.status ≠ 1) :
    cfg.shared.tables.transaction? id = some row ∧
      cfg.shared.tables.entriesOf id = start.shared.tables.entriesOf id := by
  refine steady.invariant (P := fun t => t.transaction? id = some row ∧
    t.entriesOf id = start.shared.tables.entriesOf id) ⟨found, rfl⟩ ?_ run all
  rintro t ids t' book ⟨there, same⟩ moved
  obtain ⟨still, entries⟩ := moved.final book there settled
  exact ⟨still, entries.trans same⟩

end Steady

section Balances

/-- How often a session has settled a transaction, and how often all of them have. -/
def settlements (id : TransactionId) (s : Summary) : Int :=
  (s.settled.countP fun settled => settled.1 = id : Nat)

def timesSettled (cfg : Config server) (id : TransactionId) : Int :=
  cfg.total fun l => settlements id l.effects

/-- A transaction is settled at most once, and no longer pending from then on. -/
private def SettledOnce (cfg : Config server) : Prop :=
  ∀ id, timesSettled cfg id = 0 ∨ timesSettled cfg id = 1 ∧
    ∃ row, cfg.shared.tables.transaction? id.value = some row ∧ row.status ≠ 1

private theorem timesSettled_step (steady : Steady cfg) (stepped : cfg.step event = some next)
    (id : TransactionId) :
    timesSettled next id = timesSettled cfg id ∨
      timesSettled next id = timesSettled cfg id + 1 ∧
        (∃ row, cfg.shared.tables.transaction? id.value = some row ∧ row.status = 1) ∧
        ∃ row, next.shared.tables.transaction? id.value = some row ∧ row.status ≠ 1 := by
  have counts : timesSettled next id = timesSettled cfg id +
      (committing ⟨cfg, event, next⟩).elim 0 fun own => settlements id own.summary :=
    total_effects steady.safe stepped (f := settlements id) rfl
  rcases step_committing steady.safe stepped with ⟨none, -⟩ | ⟨own, known, commits⟩
  · rw [none, Option.elim_none, add_zero] at counts
    exact .inl counts
  · rw [known, Option.elim_some] at counts
    have merged := commits.tables
    cases commits.ready with
    | reading _ summary | enrolling _ _ _ summary | holding _ _ _ _ _ _ _ _ summary =>
        rw [summary] at counts
        exact .inl (counts.trans (add_zero _))
    | @settling target status postedAt row updates _ settles found versions summary =>
        rw [summary] at counts
        by_cases here : target = id
        · subst here
          have pending := steady.pending commits (by rw [versions]; exact List.mem_cons_self) found
          have after : next.shared.tables.transaction? target.value =
              some (row.settled target.value (transactionStatusToI16 status) postedAt) := by
            rw [merged, versions, merge_settle steady.safe.inv settles found,
              Tables.transaction?_settle, found, Option.map_some]
          have same : row.id = target.value := key_of_find found
          refine .inr ⟨by simpa [settlements] using counts, ⟨row, found, pending⟩, _, after, ?_⟩
          rw [TransactionRow.settled, if_pos same]
          rcases settles.terminal with terminal | terminal <;> simp [terminal]
        · exact .inl (by simpa [settlements, here] using counts)

private theorem SettledOnce.step (steady : Steady cfg) (once : SettledOnce cfg)
    (stepped : cfg.step event = some next) : SettledOnce next := by
  intro id
  rcases timesSettled_step steady stepped id with same | ⟨more, ⟨row, found, pending⟩, after⟩
  · rw [same]
    rcases once id with none | ⟨one, row, found, settled⟩
    · exact .inl none
    · exact .inr ⟨one, row, (steady.final stepped found settled).1, settled⟩
  · rcases once id with none | ⟨-, other, there, settled⟩
    · exact .inr ⟨by omega, after⟩
    · rw [found] at there
      cases there
      exact absurd pending settled

/-- The balance columns of every account are the sums of the balance deltas of its
    posted and of its pending entries. -/
def ExactBalances (database : Database) : Prop :=
  ∀ row ∈ database.tables.accounts, ∃ account entries, buildAccount row = .ok account ∧
    (getEntriesForAccount ⟨row.id⟩ database .idle).1 = .ok entries ∧
    row.postedBalance = deltaSum account.normalBalance .posted entries ∧
    row.pendingBalance = deltaSum account.normalBalance .pending entries

theorem timely_exact (run : Steps initial trace cfg)
    (inTime : ∀ moved ∈ trace, timely moved = true) : Exact cfg.shared.tables :=
  Steady.initial.invariant (by nofun) (fun _ _ _ book exact moved => exact.advanced book moved) run
    inTime

theorem settled_once (run : Steps initial trace cfg)
    (inTime : ∀ moved ∈ trace, timely moved = true) (id : TransactionId) :
    timesSettled cfg id ≤ 1 := by
  have both : Steady cfg ∧ SettledOnce cfg := by
    refine run.invariant (P := fun cfg => Steady cfg ∧ SettledOnce cfg) ?_
      ⟨.initial, fun _ => .inl rfl⟩ inTime
    rintro before event after ⟨steady, once⟩ stepped time
    exact ⟨steady.step stepped time, once.step steady stepped⟩
  rcases both.2 id with none | ⟨one, -⟩ <;> omega

/-- As long as no status is changed too late, every balance column is the exact sum
    of the account's entries, and no transaction is settled twice. -/
theorem balances_exact (run : Steps initial trace cfg)
    (inTime : ∀ moved ∈ trace, timely moved = true) :
    ExactBalances cfg.shared.database ∧ ∀ id, timesSettled cfg id ≤ 1 := by
  constructor
  · exact (timely_exact run inTime).decoded (safe run).inv
  · exact settled_once run inTime

theorem balances_exact_captured : ∃ trace cfg, Steps initial trace cfg ∧
    cfg.shared.tables.accounts.map AccountRow.postedBalance = [100, 100] ∧
    ExactBalances cfg.shared.database ∧ timesSettled cfg ⟨1⟩ ≤ 1 := by
  obtain ⟨trace, cfg, run, inTime, posted⟩ := reached timely
    (deposit ("USD", "USD") ++ .request (.capture 1 5) :: turns 3 12)
    (fun cfg => cfg.shared.tables.accounts.map AccountRow.postedBalance) (a := [100, 100])
    (by decide +kernel)
  obtain ⟨exact, once⟩ := balances_exact run inTime
  exact ⟨trace, cfg, run, posted, exact, once ⟨1⟩⟩

/-- The posted balance of every account, with the sum of its posted entries. -/
def postedColumns (database : Database) : List (Int × Int) :=
  database.tables.accounts.map fun row =>
    match buildAccount row, (getEntriesForAccount ⟨row.id⟩ database .idle).1 with
    | .ok account, .ok entries => (row.postedBalance, deltaSum account.normalBalance .posted entries)
    | _, _ => (0, 0)

/-- Two captures that overlap both take effect. -/
theorem captured_twice : ∃ trace cfg, Steps initial trace cfg ∧
    ¬ ExactBalances cfg.shared.database ∧ timesSettled cfg ⟨1⟩ = 2 := by
  obtain ⟨trace, cfg, run, -, computed⟩ := reached (fun _ => true)
    (overlapping (.capture 1 5) (.capture 1 6))
    (fun cfg => (timesSettled cfg ⟨1⟩, postedColumns cfg.shared.database))
    (a := (2, [(200, 100), (200, 100)])) (by decide +kernel)
  obtain ⟨twice, columns⟩ := Prod.mk.inj computed
  refine ⟨trace, cfg, run, fun exact => ?_, twice⟩
  have listed : ((200, 100) : Int × Int) ∈ [(200, 100), (200, 100)] := List.mem_cons_self
  rw [← columns] at listed
  obtain ⟨row, member, pair⟩ := List.mem_map.mp listed
  obtain ⟨account, entries, built, read, posted, -⟩ := exact row member
  simp only [built, read, Prod.mk.injEq] at pair
  omega

end Balances

section Finality

/-- The book has the transaction with this status. -/
def Stands (w : World) (id : TransactionId) (status : TransactionStatus) : Prop :=
  ∃ row, w.tables.transaction? id.value = some row ∧ row.status = transactionStatusToI16 status

/-- What a session has seen settled, or has settled itself, is as it was then. -/
structure Knowing (w : World) (l : Session) : Prop where
  read : ∀ id (transaction : Transaction),
    (⟨.getTransaction id, .ok (some transaction)⟩ : Answered) ∈ l.history →
      transaction.status ≠ .pending → ∃ row, w.tables.transaction? id.value = some row ∧
        buildTransaction row = .ok transaction
  made : ∀ id status postedAt, (id, status, postedAt) ∈ l.effects.settled →
    status ≠ .pending ∧ ∃ row, w.tables.transaction? id.value = some row ∧
      row.status = transactionStatusToI16 status ∧ row.postedAt = postedAt

theorem status_ne {status : TransactionStatus} :
    transactionStatusToI16 status ≠ 1 ↔ status ≠ .pending := by
  cases status <;> simp [transactionStatusToI16]

theorem row_of_read {weather : Weather} {id : TransactionId} {transaction : Transaction}
    {w w' : World} {l l' : Session} (unwritten : l.tx.versions.transactions = [])
    (ran : exec weather (.getTransaction id) w l = some (.ok (some transaction), w', l')) :
    ∃ row, w'.tables.transaction? id.value = some row ∧ buildTransaction row = .ok transaction := by
  obtain ⟨read, rfl⟩ := getTransaction_answer unwritten ran
  exact lookup_eq_some.mp read

theorem stands_of_read {weather : Weather} {id : TransactionId} {transaction : Transaction}
    {w w' : World} {l l' : Session} (unwritten : l.tx.versions.transactions = [])
    (ran : exec weather (.getTransaction id) w l = some (.ok (some transaction), w', l')) :
    Stands w' id transaction.status := by
  obtain ⟨row, found, built⟩ := row_of_read unwritten ran
  exact ⟨row, found, (buildTransaction_ok built).2.2.symm⟩

theorem Commits.made {own : Session} (safe : protocol.Safe cfg)
    (commits : Commits cfg next own) :
    ∀ id status postedAt, (id, status, postedAt) ∈ own.summary.settled →
      status ≠ .pending ∧ ∃ row, next.shared.tables.transaction? id.value = some row ∧
        row.status = transactionStatusToI16 status ∧ row.postedAt = postedAt := by
  intro id status postedAt made
  have merged := commits.tables
  cases commits.ready with
  | reading _ summary | enrolling _ _ _ summary | holding _ _ _ _ _ _ _ _ summary =>
      rw [summary] at made
      cases made
  | @settling _ _ _ row _ _ settles found versions summary =>
      rw [summary] at made
      cases List.mem_singleton.mp made
      have same : row.id = id.value := key_of_find found
      constructor
      · rw [← status_ne]
        rcases settles.terminal with terminal | terminal <;> simp [terminal]
      · refine ⟨row.settled id.value (transactionStatusToI16 status) postedAt, ?_,
          by rw [TransactionRow.settled, if_pos same], by rw [TransactionRow.settled, if_pos same]⟩
        rw [merged, versions, merge_settle safe.inv settles found, Tables.transaction?_settle, found,
          Option.map_some]

private theorem Knowing.step (steady : Steady cfg)
    (all : ∀ (i : Nat) thread, cfg.threads[i]? = some thread → Knowing cfg.shared thread.own)
    (stepped : cfg.step event = some next) :
    ∀ (i : Nat) thread, next.threads[i]? = some thread → Knowing next.shared thread.own := by
  have others : ∀ l, Knowing cfg.shared l → Knowing next.shared l := by
    intro l knowing
    refine ⟨fun id transaction seen settled => ?_, fun id status postedAt made => ?_⟩
    · obtain ⟨row, found, built⟩ := knowing.read id transaction seen settled
      have final : row.status ≠ 1 := (buildTransaction_ok built).2.2 ▸ status_ne.mpr settled
      exact ⟨row, (steady.final stepped found final).1, built⟩
    · obtain ⟨settled, row, found, same, posted⟩ := knowing.made id status postedAt made
      exact ⟨settled, row, (steady.final stepped found (same ▸ status_ne.mpr settled)).1, same,
        posted⟩
  refine Config.all_step all stepped (fun _ => ⟨nofun, nofun⟩)
    (fun _ knowing => ⟨knowing.1, knowing.2⟩) (fun _ knowing => ⟨knowing.1, knowing.2⟩) ?_
  rintro i weather c rest own answer shared own' rfl found ran rfl
  refine ⟨?_, fun j other _ _ knowing => others _ knowing⟩
  have before := others own (all i _ found)
  have allowed := (steady.safe.pre found).2
  obtain ⟨tx, -, rfl⟩ := exec_does ran
  constructor
  · intro id transaction seen settled
    rw [Session.history_record] at seen
    rcases List.mem_append.mp seen with old | new
    · exact before.read id transaction old settled
    · cases List.mem_singleton.mp new
      exact row_of_read allowed ran
  · rcases call_commits steady.safe stepped found ran with ⟨other, -⟩ | ⟨made, commits⟩
    · rw [effects_record tx allowed other]
      exact before.made
    · cases made
      rw [(Ready.effects allowed tx).2]
      exact commits.made steady.safe

theorem Knowing.steps (run : Steps initial trace cfg)
    (inTime : ∀ moved ∈ trace, timely moved = true) :
    ∀ (i : Nat) thread, cfg.threads[i]? = some thread → Knowing cfg.shared thread.own := by
  have both : Steady cfg ∧ ∀ (i : Nat) thread, cfg.threads[i]? = some thread →
      Knowing cfg.shared thread.own := by
    refine run.invariant (P := fun cfg => Steady cfg ∧ ∀ (i : Nat) thread,
      cfg.threads[i]? = some thread → Knowing cfg.shared thread.own) ?_ ⟨.initial, nofun⟩ inTime
    rintro before event after ⟨steady, knowing⟩ stepped time
    exact ⟨steady.step stepped time, Knowing.step steady knowing stepped⟩
  exact both.2

theorem succeeded_eq_some {i : Nat} {request : Request}
    (answered : succeeded cfg i = some request) :
    ∃ response own, cfg.threads[i]? = some ⟨some (.done (.ok response)), own⟩ ∧
      own.request = request := by
  unfold succeeded at answered
  split at answered
  · rename_i found
    cases answered
    exact ⟨_, _, found, rfl⟩
  · cases answered

/-- A settlement that was answered with success stands. -/
private theorem answered_stands (run : Steps initial trace cfg)
    (inTime : ∀ moved ∈ trace, timely moved = true) {i : Nat} {request : Request}
    (answered : succeeded cfg i = some request) {id status postedAt}
    (asks : Asks request id status postedAt) : Stands cfg.shared id status := by
  obtain ⟨response, own, found, rfl⟩ := succeeded_eq_some answered
  have knowing := Knowing.steps run inTime i _ found
  rcases (((safe run).post found).2.1 response rfl).reported id status postedAt asks with
    ⟨transaction, rfl, seen⟩ | ⟨committed, made⟩
  · obtain ⟨row, there, built⟩ := knowing.read id transaction seen asks.terminal
    exact ⟨row, there, (buildTransaction_ok built).2.2.symm⟩
  · have settled : (id, status, postedAt) ∈ own.effects.settled := by
      rw [Session.effects, if_pos committed, made]
      exact List.mem_cons_self
    obtain ⟨-, row, there, same, -⟩ := knowing.made id status postedAt settled
    exact ⟨row, there, same⟩

/-- As long as no status is changed too late, settled transactions and entries stay
    as they are, and a settlement that was answered with success stands for good. -/
theorem settlements_final {later : List (Transition server)} {cfg' : Config server}
    (run : Steps initial trace cfg) (continued : Steps cfg later cfg')
    (inTime : ∀ moved ∈ trace ++ later, timely moved = true) :
    (∀ id row, cfg.shared.tables.transaction? id = some row →
      row.status = transactionStatusToI16 .posted ∨ row.status = transactionStatusToI16 .voided →
      ∃ row', cfg'.shared.tables.transaction? id = some row' ∧ row'.status = row.status ∧
        row'.postedAt = row.postedAt) ∧
    (∀ id e, find cfg.shared.tables.entries id = some e →
      e.status = entryStatusToI16 .posted ∨ e.status = entryStatusToI16 .voided →
      ∃ e', find cfg'.shared.tables.entries id = some e' ∧ e'.status = e.status) ∧
    ∀ i request, succeeded cfg i = some request →
      ∀ id status postedAt, Asks request id status postedAt →
        ∃ row, cfg'.shared.tables.transaction? id.value = some row ∧
          row.status = transactionStatusToI16 status := by
  have first : ∀ moved ∈ trace, timely moved = true := fun moved member =>
    inTime moved (List.mem_append_left _ member)
  have kept : ∀ id row, cfg.shared.tables.transaction? id = some row → row.status ≠ 1 →
      cfg'.shared.tables.transaction? id = some row ∧
        cfg'.shared.tables.entriesOf id = cfg.shared.tables.entriesOf id :=
    fun id row found settled => (Steady.initial.steps run first).stays continued
      (fun moved member => inTime moved (List.mem_append_right _ member)) found settled
  refine ⟨?_, ?_, ?_⟩
  · intro id row found settled
    have : row.status ≠ 1 := by
      rcases settled with same | same <;> simp [same, transactionStatusToI16]
    exact ⟨row, (kept id row found this).1, rfl, rfl⟩
  · intro id e found settled
    have here : e.id = id := key_of_find found
    obtain ⟨-, row, there, same⟩ := (safe run).inv.references e (mem_of_find found)
    have final : row.status ≠ 1 := by
      rw [← same]
      rcases settled with same | same <;> simp [same, entryStatusToI16]
    have member : e ∈ cfg'.shared.tables.entriesOf e.transactionId := by
      rw [(kept _ row there final).2]
      exact (Tables.mem_entriesOf _).mpr ⟨mem_of_find found, rfl⟩
    have book := (safe (run.append continued)).inv
    exact ⟨e, here ▸ find_of_mem book.entries ((Tables.mem_entriesOf _).mp member).1, rfl⟩
  · intro i request answered id status postedAt asks
    obtain ⟨row, there, same⟩ := answered_stands run first answered asks
    exact ⟨row, (kept _ row there (same ▸ status_ne.mpr asks.terminal)).1, same⟩

theorem settlements_final_captured : ∃ trace cfg later cfg', Steps initial trace cfg ∧
    Steps cfg later cfg' ∧ (∀ moved ∈ trace ++ later, timely moved = true) ∧
    succeeded cfg 3 = some (.capture 1 5) ∧ succeeded cfg' 4 = some (.capture 1 6) ∧
    ∃ row, cfg'.shared.tables.transaction? 1 = some row ∧
      row.status = transactionStatusToI16 .posted := by
  obtain ⟨trace, cfg, later, cfg', run, continued, inTime, first, second⟩ := reached_twice timely
    (deposit ("USD", "USD") ++ .request (.capture 1 5) :: turns 3 12)
    (.request (.capture 1 6) :: turns 4 3) (succeeded · 3) (succeeded · 4)
    (a := some (.capture 1 5)) (b := some (.capture 1 6)) (by decide +kernel)
  exact ⟨trace, cfg, later, cfg', run, continued, inTime, first, second,
    (settlements_final run continued inTime).2.2 3 _ first _ _ _ (.capture 1 5)⟩

/-- A capture is answered with success, and then the transaction is voided. -/
theorem voided_after_capture : ∃ trace cfg later cfg', Steps initial trace cfg ∧
    Steps cfg later cfg' ∧ succeeded cfg 3 = some (.capture 1 5) ∧
    (∃ row, cfg.shared.tables.transaction? 1 = some row ∧
      row.status = transactionStatusToI16 .posted ∧ row.postedAt = some 5) ∧
    succeeded cfg' 4 = some (.void 1) ∧
    ∃ row, cfg'.shared.tables.transaction? 1 = some row ∧
      row.status = transactionStatusToI16 .voided ∧ row.postedAt = none := by
  let columns (cfg : Config server) :=
    (cfg.shared.tables.transaction? 1).map fun row => (row.status, row.postedAt)
  obtain ⟨trace, cfg, later, cfg', run, continued, -, first, second⟩ :=
    reached_twice (fun _ => true)
      (deposit ("USD", "USD") ++ .request (.capture 1 5) :: .request (.void 1) ::
        turns 3 2 ++ turns 4 2 ++ turns 3 10)
      (turns 4 10) (fun cfg => (succeeded cfg 3, columns cfg))
      (fun cfg' => (succeeded cfg' 4, columns cfg'))
      (a := (some (.capture 1 5), some (2, some 5))) (b := (some (.void 1), some (3, none)))
      (by decide +kernel)
  obtain ⟨captured, posted⟩ := Prod.mk.inj first
  obtain ⟨voided, cleared⟩ := Prod.mk.inj second
  obtain ⟨row, found, same⟩ := Option.map_eq_some_iff.mp posted
  obtain ⟨row', found', same'⟩ := Option.map_eq_some_iff.mp cleared
  exact ⟨trace, cfg, later, cfg', run, continued, captured,
    ⟨row, found, congrArg Prod.fst same, congrArg Prod.snd same⟩, voided,
    ⟨row', found', congrArg Prod.fst same', congrArg Prod.snd same'⟩⟩

end Finality
end Fides.Ledger
