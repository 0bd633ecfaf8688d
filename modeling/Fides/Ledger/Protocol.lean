import Fides.Concurrency.RelyGuarantee
import Fides.Ledger.Merging
import Fides.Ledger.Statements
import Mathlib.Data.Prod.Lex

/-! # The protocol between handlers

Locks are taken in one order: accounts by id, then the idempotency key, then the
transaction row, then its entries.  Whatever a handler has locked stays as it is
until the handler ends, and the lines of a transaction never change.  When a
handler commits, its row versions make up one move of the book.
-/

namespace Fides.Storage

def Resource.rank : Resource → ℕ ×ₗ ℤ
  | .account id => toLex (0, id)
  | .key _ => toLex (1, 0)
  | .transaction _ => toLex (2, 0)
  | .entry _ => toLex (3, 0)

end Fides.Storage

namespace Fides.Ledger

open Domain Service Storage Relational Concurrency

/-- What a handler that holds these locks can rely on. -/
structure Keeps (held : List Resource) (w w' : World) : Prop where
  sequences : Before w.sequences w'.sequences
  fixed : ∀ id row, w.tables.transaction? id = some row →
    (∃ row', w'.tables.transaction? id = some row' ∧ row'.fixed = row.fixed) ∧
      (w'.tables.entriesOf id).map EntryRow.fixed = (w.tables.entriesOf id).map EntryRow.fixed
  accounts : ∀ a, .account a ∈ held → w'.tables.account? a = w.tables.account? a
  transactions : ∀ id, .transaction id ∈ held →
    w'.tables.transaction? id = w.tables.transaction? id ∧
      w'.tables.entriesOf id = w.tables.entriesOf id
  entries : ∀ id, .entry id ∈ held → find w.tables.entries id = none →
    find w'.tables.entries id = none
  keys : ∀ k, .key k ∈ held → w.tables.byKey? k = none → w'.tables.byKey? k = none
  streams : ∀ a, .account a ∈ held → w'.tables.stream a = w.tables.stream a

namespace Keeps

variable {held more : List Resource} {w w' w'' : World}

theorem of_same_tables (same : w'.tables = w.tables) (grown : Before w.sequences w'.sequences) :
    Keeps held w w' := by
  constructor <;> simp_all

theorem refl : Keeps held w w := of_same_tables rfl (.refl _)

theorem trans (first : Keeps held w w') (second : Keeps held w' w'') : Keeps held w w'' where
  sequences := first.sequences.trans second.sequences
  fixed id row found := by
    obtain ⟨⟨row', found', columns⟩, same⟩ := first.fixed id row found
    obtain ⟨⟨row'', found'', columns'⟩, same'⟩ := second.fixed id row' found'
    exact ⟨⟨row'', found'', columns'.trans columns⟩, same'.trans same⟩
  accounts a member := (second.accounts a member).trans (first.accounts a member)
  transactions id member :=
    ⟨(second.transactions id member).1.trans (first.transactions id member).1,
      (second.transactions id member).2.trans (first.transactions id member).2⟩
  entries id member := second.entries id member ∘ first.entries id member
  keys k member := second.keys k member ∘ first.keys k member
  streams a member := (second.streams a member).trans (first.streams a member)

/-- Fewer locks, less to rely on. -/
theorem anti (fewer : ∀ r ∈ held, r ∈ more) (keeps : Keeps more w w') : Keeps held w w' where
  sequences := keeps.sequences
  fixed := keeps.fixed
  accounts a member := keeps.accounts a (fewer _ member)
  transactions id member := keeps.transactions id (fewer _ member)
  entries id member := keeps.entries id (fewer _ member)
  keys k member := keeps.keys k (fewer _ member)
  streams a member := keeps.streams a (fewer _ member)

theorem lines (keeps : Keeps held w w') (id : Int) (row : TransactionRow)
    (found : w.tables.transaction? id = some row) :
    (∃ row', w'.tables.transaction? id = some row' ∧ row'.idempotencyKey = row.idempotencyKey) ∧
      w'.tables.lines id = w.tables.lines id := by
  obtain ⟨⟨row', found', columns⟩, same⟩ := keeps.fixed id row found
  have key : row'.fixed.idempotencyKey = row.fixed.idempotencyKey := by rw [columns]
  exact ⟨⟨row', found', key⟩, Tables.lines_of_fixed _ same⟩

end Keeps

/-- The settlement a request asks for. -/
inductive Asks : Request → TransactionId → TransactionStatus → Option Int → Prop where
  | capture (id now : Int) : Asks (.capture id now) ⟨id⟩ .posted (some now)
  | void (id : Int) : Asks (.void id) ⟨id⟩ .voided none

theorem Asks.unique {request : Request} {id id' status status' postedAt postedAt'}
    (asks : Asks request id status postedAt) (also : Asks request id' status' postedAt') :
    id' = id ∧ status' = status ∧ postedAt' = postedAt := by
  cases asks <;> cases also <;> exact ⟨rfl, rfl, rfl⟩

theorem Asks.terminal {request : Request} {id status postedAt}
    (asks : Asks request id status postedAt) : status ≠ .pending := by
  cases asks <;> simp

/-- The row versions of a session that is about to commit, and what it did to get there. -/
inductive Ready (w : World) (l : Session) : Prop where
  | reading (versions : l.tx.versions = .empty) (summary : l.summary = .blank)
  | enrolling {req now row} (request : l.request = .createAccount req now)
      (enrolls : Enrolls w.tables w.sequences row) (versions : l.tx.versions = ⟨[row], [], []⟩)
      (summary : l.summary = { Summary.blank with opened := [⟨row.id⟩] })
  | holding {req now legs row rows updates} (request : l.request = .authorize req now)
      (parsed : parseTransferLegs req.legs = .ok legs)
      (key : varchar 64 req.idempotencyKey = .ok row.idempotencyKey)
      (lines : rows.map EntryRow.line = legs.map TransferLeg.line)
      (funds : ∀ leg ∈ legs, w.tables.normal leg.accountId.value ≠ leg.entryType.side →
        ∃ balance : AccountBalance, balance.hasAvailable leg.amount = true ∧
          (⟨.cacheGet leg.accountId, some balance⟩ : Answered) ∈ l.history)
      (holds : Holds w.tables w.sequences row rows updates)
      (locked : .key row.idempotencyKey ∈ l.tx.held)
      (versions : l.tx.versions = ⟨w.tables.bumped updates, [row], rows⟩)
      (summary : l.summary =
        { Summary.blank with authorized := [⟨row.id⟩], entered := rows, written := updates })
      (created : row.createdAt = now)
  | settling {id status postedAt row updates} (request : Asks l.request id status postedAt)
      (settles : Settles w.tables id.value (transactionStatusToI16 status) postedAt updates)
      (found : w.tables.transaction? id.value = some row)
      (versions : l.tx.versions = ⟨w.tables.bumped updates,
        [{ row with status := transactionStatusToI16 status, postedAt := postedAt }],
        (w.tables.entriesOf id.value).map fun e =>
          { e with status := transactionStatusToI16 status }⟩)
      (summary : l.summary =
        { Summary.blank with settled := [(id, status, postedAt)], written := updates })

/-- When a session may make a call. -/
def Allowed (w : World) (l : Session) : Call → Prop
  | .createAccount .. | .createTransaction .. => l.summary.committed = false
  | .getAccount _ | .getAccountForUpdate _ => l.tx.versions.accounts = []
  | .createEntry _ accountId .. =>
      l.summary.committed = false ∧ l.tx.versions.accounts = [] ∧
        .account accountId.value ∈ l.tx.held
  | .getTransaction _ | .findTransactionByKey _ => l.tx.versions.transactions = []
  | .getEntriesForTransaction id =>
      l.tx.versions.entries = [] ∧ ∃ row, w.tables.transaction? id.value = some row
  | .getEntriesForAccount _ => l.tx.versions.entries = []
  | .updateTransactionStatus id .. =>
      l.summary.committed = false ∧ l.tx.versions.transactions = [] ∧
        (∃ row, w.tables.transaction? id.value = some row) ∧
        ∃ transaction : Transaction, transaction.status = .pending ∧
          (⟨.getTransaction id, .ok (some transaction)⟩ : Answered) ∈ l.history
  | .updateEntryStatusByTransaction .. => l.tx.versions.entries = []
  | .updateAccountBalance id version _ _ =>
      l.summary.committed = false ∧ .account id.value ∈ l.tx.held ∧
        ∃ row, (l.tx.view w.database).account? id.value = some row ∧ row.version = version ∧
          FixedWidth.Fits 32 version
  | .commit => Ready w l
  | .cacheApplyDelta id posted pending =>
      l.summary.committed = true ∧
        l.summary.applied ++ [⟨id, posted, pending⟩] <+: l.summary.written
  | .cacheSet id posted pending =>
      l.summary = { Summary.blank with committed := true, opened := [id] } ∧
        posted = 0 ∧ pending = 0 ∧ ∃ req now, l.request = .createAccount req now
  | _ => True

/-- A lock that a call still needs comes after all the locks the session holds. -/
def Ordered (w : World) (l : Session) (c : Call) : Prop :=
  ∀ r ∈ c.needs (l.tx.view w.database), r ∉ l.tx.held → ∀ h ∈ l.tx.held, h.rank < r.rank

structure Owns (w : World) (l : Session) : Prop where
  within : ∀ r ∈ l.tx.held, r.Within w.sequences
  guarded : l.tx.Guarded

/-- Nothing committed is still missing in the cache. -/
def SettledUp (l : Session) : Prop :=
  l.summary.committed = true →
    l.summary.applied = l.summary.written ∧ l.summary.seeded = l.summary.opened

/-- A settlement that is reported as done was seen to be done, or was made. -/
def Reported (l : Session) : Prop :=
  ∀ id status postedAt, Asks l.request id status postedAt →
    (∃ transaction : Transaction, transaction.status = status ∧
      (⟨.getTransaction id, .ok (some transaction)⟩ : Answered) ∈ l.history) ∨
    l.summary.committed = true ∧ l.summary.settled = [(id, status, postedAt)]

/-- The answer to an authorization comes from what is stored under its key, or is what
    the session has inserted. -/
inductive AuthorizeAnswer (l : Session) (req : AuthorizeRequest) (now : Int) : Response → Prop where
  | replayed {existing : Transaction} {entries : List Entry}
      (seen : (⟨.findTransactionByKey req.idempotencyKey, .ok (some existing)⟩ : Answered) ∈
        l.history)
      (read : (⟨.getEntriesForTransaction existing.id, .ok entries⟩ : Answered) ∈ l.history)
      (nothing : l.summary.authorized = []) :
      AuthorizeAnswer l req now
        (.authorized (transactionToProto existing) (entries.map entryToProto))
  | made {id : TransactionId} (committed : l.summary.committed = true)
      (inserted : l.summary.authorized = [id]) :
      AuthorizeAnswer l req now (.authorized ⟨id.value, req.idempotencyKey, 1, now, 0⟩
        (l.summary.entered.map EntryRow.proto))

/-- The answer to a settlement comes from the transaction as the session has read it. -/
inductive SettleAnswer (l : Session) (id : TransactionId) (status : TransactionStatus)
    (postedAt : Option Int) : Response → Prop where
  | replayed {transaction : Transaction}
      (seen : (⟨.getTransaction id, .ok (some transaction)⟩ : Answered) ∈ l.history)
      (done : transaction.status = status) :
      SettleAnswer l id status postedAt (.settled (transactionToProto transaction))
  | made {transaction : Transaction}
      (seen : (⟨.getTransaction id, .ok (some transaction)⟩ : Answered) ∈ l.history)
      (committed : l.summary.committed = true)
      (settled : l.summary.settled = [(id, status, postedAt)]) :
      SettleAnswer l id status postedAt (.settled ⟨id.value, transaction.idempotencyKey,
        transactionStatusToI16 status, transaction.createdAt, postedAt.getD 0⟩)

/-- What a response stands on. -/
structure Reports (l : Session) (response : Response) : Prop where
  created : ∀ req now, l.request = .createAccount req now → ∃ account : ProtoAccount,
    response = .account account ∧ l.summary.committed = true ∧ l.summary.opened = [⟨account.id⟩]
  authorized : ∀ req now, l.request = .authorize req now → AuthorizeAnswer l req now response
  settled : ∀ id status postedAt, Asks l.request id status postedAt →
    SettleAnswer l id status postedAt response
  listed : ∀ a, l.request = .getEntries a → ∃ entries,
    (⟨.getEntriesForAccount ⟨a⟩, .ok entries⟩ : Answered) ∈ l.history ∧
      response = .entries (entries.map entryToProto)

namespace Reports

variable {l : Session} {response : Response}

theorem reported (reports : Reports l response) : Reported l := by
  intro id status postedAt asks
  cases reports.settled id status postedAt asks with
  | replayed seen done => exact .inl ⟨_, done, seen⟩
  | made _ committed settled => exact .inr ⟨committed, settled⟩

theorem of_create {req : CreateAccountRequest} {now : Int} {account : ProtoAccount}
    (request : l.request = .createAccount req now) (committed : l.summary.committed = true)
    (opened : l.summary.opened = [⟨account.id⟩]) : Reports l (.account account) where
  created _ _ _ := ⟨account, rfl, committed, opened⟩
  authorized _ _ other := by simp [request] at other
  settled _ _ _ asks := by
    rw [request] at asks
    cases asks
  listed _ other := by simp [request] at other

theorem of_authorize {req : AuthorizeRequest} {now : Int} (request : l.request = .authorize req now)
    (answer : AuthorizeAnswer l req now response) : Reports l response where
  created _ _ other := by simp [request] at other
  authorized _ _ same := by
    rw [request] at same
    cases same
    exact answer
  settled _ _ _ asks := by
    rw [request] at asks
    cases asks
  listed _ other := by simp [request] at other

theorem of_settle {id : TransactionId} {status : TransactionStatus} {postedAt : Option Int}
    (asks : Asks l.request id status postedAt)
    (answer : SettleAnswer l id status postedAt response) :
    Reports l response where
  created _ _ other := by
    rw [other] at asks
    cases asks
  authorized _ _ other := by
    rw [other] at asks
    cases asks
  settled _ _ _ also := by
    obtain ⟨rfl, rfl, rfl⟩ := asks.unique also
    exact answer
  listed _ other := by
    rw [other] at asks
    cases asks

end Reports

/-- A session that ends with an error has not committed. -/
def Promise (outcome : Except Failure Response) (l : Session) : Prop :=
  SettledUp l ∧ (∀ response, outcome = .ok response → Reports l response) ∧
    ∀ e, outcome = .error e → l.summary.committed = false

/-- What one call does, apart from its answer. -/
inductive Does (c : Call) (answer : c.Result) (w : World) (tx : Tx) : World → Tx → Prop where
  | commit : (⟨c, answer⟩ : Answered) = ⟨.commit, .ok ()⟩ →
      Does c answer w tx { w with database := (Storage.commit w.database tx).1 } .idle
  | give_up : (⟨c, answer⟩ : Answered) ≠ ⟨.commit, .ok ()⟩ → Does c answer w tx w .idle
  | statement {database tx'} : (⟨c, answer⟩ : Answered) ≠ ⟨.commit, .ok ()⟩ →
      Leaves (c.needs (tx.view w.database)) w.database tx database tx' →
      Does c answer w tx { w with database := database } tx'
  | apply {id posted pending} : (⟨c, answer⟩ : Answered) = ⟨.cacheApplyDelta id posted pending, ()⟩ →
      Does c answer w tx { w with cache := w.cache.applyDelta id posted pending } tx
  | seed {id posted pending} : (⟨c, answer⟩ : Answered) = ⟨.cacheSet id posted pending, ()⟩ →
      Does c answer w tx { w with cache := w.cache.set id posted pending } tx

private theorem storing_does {α : Type} {call : Database → Tx → Reply α} {w w' : World}
    {tx tx' : Tx} {answer : Except StorageError α} {c : Call} {result : c.Result}
    (apart : (⟨c, result⟩ : Answered) ≠ ⟨.commit, .ok ()⟩)
    (leaves : ∀ {answer database tx'}, call w.database tx = (answer, database, tx') →
      Leaves (c.needs (tx.view w.database)) w.database tx database tx')
    (ran : storing call w tx = (answer, w', tx')) : Does c result w tx w' tx' := by
  unfold storing at ran
  cases ran
  exact .statement apart (leaves rfl)

theorem perform_does {c : Call} {answer : c.Result} {w w' : World} {tx tx' : Tx}
    (ran : c.perform w tx = (answer, w', tx')) : Does c answer w tx w' tx' := by
  cases c with
  | begin =>
      cases ran
      exact .statement nofun .refl
  | createAccount =>
      exact storing_does nofun (fun replied => createAccount_leaves _ replied) ran
  | getAccount id =>
      exact storing_does nofun (fun replied =>
        .of_read ((getAccount_eq id _ _).symm.trans replied)) ran
  | getAccountForUpdate id => exact storing_does nofun getAccountForUpdate_leaves ran
  | createTransaction => exact storing_does nofun createTransaction_leaves ran
  | getTransaction id =>
      exact storing_does nofun (fun replied =>
        .of_read ((getTransaction_eq id _ _).symm.trans replied)) ran
  | findTransactionByKey key =>
      by_cases storable : Storable key
      · exact storing_does nofun (fun replied =>
          .of_read ((findTransactionByKey_eq storable _ _).symm.trans replied)) ran
      · exact storing_does nofun (fun replied =>
          .of_read ((findTransactionByKey_null storable _ _).symm.trans replied)) ran
  | updateTransactionStatus => exact storing_does nofun updateTransactionStatus_leaves ran
  | createEntry => exact storing_does nofun (fun replied => createEntry_leaves _ replied) ran
  | getEntriesForTransaction id | getEntriesForAccount id =>
      cases ran
      exact .statement nofun .refl
  | updateEntryStatusByTransaction =>
      exact storing_does nofun updateEntryStatusByTransaction_leaves ran
  | updateAccountBalance => exact storing_does nofun updateAccountBalance_leaves ran
  | commit =>
      cases ran
      exact .commit rfl
  | rollback =>
      cases ran
      exact .give_up nofun
  | cacheGet id =>
      cases ran
      exact .statement nofun .refl
  | cacheApplyDelta =>
      cases ran
      exact .apply rfl
  | cacheSet =>
      cases ran
      exact .seed rfl

theorem failed_does {message : String} {c : Call} {answer : c.Result} {w w' : World} {tx tx' : Tx}
    (ran : c.failed message w tx = some (answer, w', tx')) : Does c answer w tx w' tx' := by
  cases c <;> simp only [Call.failed, reduceCtorEq, Option.some.injEq, Prod.mk.injEq] at ran <;>
    obtain ⟨rfl, rfl, rfl⟩ := ran
  case commit => exact .give_up nofun
  all_goals exact .statement nofun .refl

theorem exec_does {weather : Weather} {c : Call} {answer : c.Result} {w w' : World}
    {l l' : Session} (ran : exec weather c w l = some (answer, w', l')) :
    ∃ tx, Does c answer w l.tx w' tx ∧ l' = l.record c answer tx := by
  obtain ⟨tx, out, rfl⟩ := exec_eq_some ran
  refine ⟨tx, ?_, rfl⟩
  cases weather with
  | fair => exact perform_does (Option.some.inj out)
  | fault message => exact failed_does out

/-- Only a commit changes the committed tables. -/
theorem exec_tables {weather : Weather} {c : Call} {answer : c.Result} {w w' : World}
    {l l' : Session} (ran : exec weather c w l = some (answer, w', l'))
    (other : (⟨c, answer⟩ : Answered) ≠ ⟨.commit, .ok ()⟩) : w'.tables = w.tables := by
  obtain ⟨tx, does, -⟩ := exec_does ran
  cases does with
  | commit made => exact absurd made other
  | statement _ leaves => exact leaves.tables
  | give_up | apply | seed => rfl

section Laws

variable {w : World} {l o : Session}

private theorem account_within (book : Consistent w.tables w.sequences) {a : Int}
    (present : (w.tables.account? a).isSome) : (Resource.account a).Within w.sequences := by
  obtain ⟨row, found⟩ := Option.isSome_iff_exists.mp present
  have same : row.id = a := key_of_find found
  exact same ▸ (book.accountRows row (mem_of_find found)).2

/-- The rows a session locks have ids that were handed out. -/
private theorem needs_within {c : Call} (book : Consistent w.tables w.sequences)
    (owns : Owns w l) (allowed : Allowed w l c) {r : Resource}
    (needed : r ∈ c.needs (l.tx.view w.database)) (present : r.Present (l.tx.view w.database)) :
    r.Within w.sequences := by
  cases c with
  | getAccountForUpdate id =>
      simp only [Call.needs] at needed
      split at needed
      · rw [List.mem_singleton.mp needed] at present ⊢
        simp only [Resource.Present, Tx.view_account? allowed] at present
        exact account_within book present
      · cases needed
  | createTransaction key =>
      simp only [Call.needs] at needed
      split at needed
      · rw [List.mem_singleton.mp needed]
        trivial
      · cases needed
  | updateTransactionStatus id =>
      rw [List.mem_singleton.mp needed] at present ⊢
      simp only [Resource.Present, Tx.view_transaction? allowed.2.1] at present
      obtain ⟨row, found⟩ := Option.isSome_iff_exists.mp present
      have same : row.id = id.value := key_of_find found
      exact same ▸ (book.transactionRows row (mem_of_find found)).2
  | createEntry _ id =>
      rw [List.mem_singleton.mp needed] at present ⊢
      simp only [Resource.Present, Tx.view_account? allowed.2.1] at present
      exact account_within book present
  | updateEntryStatusByTransaction id =>
      simp only [Call.needs, Tx.view_entriesOf allowed] at needed
      obtain ⟨e, member, rfl⟩ := List.mem_map.mp needed
      exact (book.entryRows e ((Tables.mem_entriesOf _).mp member).1).2
  | updateAccountBalance id =>
      rw [List.mem_singleton.mp needed]
      exact owns.within _ allowed.2.1
  | _ => cases needed

theorem Owns.of_idle (idle : l.tx = .idle) : Owns w l := by
  constructor
  · simp [idle, Tx.idle]
  · constructor <;> simp [idle, Tx.idle, Tables.empty]

theorem Owns.call {weather : Weather} {c : Call} {answer : c.Result} {w' : World} {l' : Session}
    (book : Consistent w.tables w.sequences) (owns : Owns w l) (allowed : Allowed w l c)
    (ran : exec weather c w l = some (answer, w', l')) : Owns w' l' := by
  obtain ⟨tx, does, rfl⟩ := exec_does ran
  cases does with
  | commit | give_up => exact .of_idle rfl
  | apply | seed => exact ⟨owns.within, owns.guarded⟩
  | statement apart leaves =>
      refine ⟨?_, leaves.guarded owns.guarded⟩
      obtain ⟨added, held, source⟩ := leaves.locks
      intro r member
      rw [Session.tx_record, held] at member
      rcases List.mem_append.mp member with old | new
      · exact (owns.within r old).mono leaves.sequences
      · rcases source r new with ⟨needed, present⟩ | ⟨-, within⟩
        · exact (needs_within book owns allowed needed present).mono leaves.sequences
        · exact within

/-- No two sessions hold the same lock. -/
def Apart (l o : Session) : Prop := ∀ r ∈ l.tx.held, r ∉ o.tx.held

theorem Apart.of_idle (idle : l.tx = .idle) : Apart l o := by
  simp [Apart, idle, Tx.idle]

theorem Apart.call {weather : Weather} {c : Call} {answer : c.Result} {w' : World} {l' : Session}
    (owns : Owns w o) (apart : Apart l o) (free : waits c w l o = false)
    (ran : exec weather c w l = some (answer, w', l')) : Apart l' o := by
  obtain ⟨tx, does, rfl⟩ := exec_does ran
  cases does with
  | commit | give_up => exact .of_idle rfl
  | apply | seed => exact apart
  | statement _ leaves =>
      obtain ⟨added, held, source⟩ := leaves.locks
      intro r member theirs
      rw [Session.tx_record, held] at member
      rcases List.mem_append.mp member with old | new
      · exact apart r old theirs
      · rcases source r new with ⟨needed, -⟩ | ⟨fresh, -⟩
        · have waiting : waits c w l o = true := by
            refine List.any_eq_true.mpr ⟨r, needed, ?_⟩
            have mine : r ∉ l.tx.held := fun mine => apart r mine theirs
            simp [mine, theirs]
          rw [free] at waiting
          cases waiting
        · exact fresh (owns.within r theirs)

/-- What a commit does to the book. -/
theorem Ready.entered (book : Consistent w.tables w.sequences) (ready : Ready w l) :
    w.tables.merge l.tx.versions = w.tables ∨
      Entered w.tables w.sequences (w.tables.merge l.tx.versions) := by
  cases ready with
  | reading versions =>
      rw [versions]
      exact .inl rfl
  | enrolling _ enrolls versions =>
      rw [versions, merge_enroll enrolls]
      exact .inr (.enroll enrolls)
  | holding _ _ _ _ _ holds _ versions =>
      rw [versions, merge_hold book holds]
      exact .inr (.hold holds)
  | settling _ settles found versions =>
      rw [versions, merge_settle book settles found]
      exact .inr (.settle settles)

theorem consistent_call {weather : Weather} {c : Call} {answer : c.Result} {w' : World}
    {l' : Session} (book : Consistent w.tables w.sequences) (allowed : Allowed w l c)
    (ran : exec weather c w l = some (answer, w', l')) : Consistent w'.tables w'.sequences := by
  obtain ⟨tx, does, rfl⟩ := exec_does ran
  cases does with
  | give_up | apply | seed => exact book
  | statement apart leaves =>
      have same : ({ w with database := _ } : World).tables = w.tables := leaves.tables
      rw [same]
      exact book.mono leaves.sequences
  | commit made =>
      cases made
      rcases allowed.entered book with same | moved
      · change Consistent (w.tables.merge l.tx.versions) w.sequences
        rw [same]
        exact book
      · exact book.entered moved

/-- Updates of other accounts leave an account as it is. -/
theorem updated_of_other {t : Tables} {updates : List BalanceUpdate} {a : Int}
    (other : ∀ update ∈ updates, update.accountId.value ≠ a) :
    (t.account? a).map (AccountRow.updated updates) = t.account? a := by
  cases found : t.account? a with
  | none => rfl
  | some row =>
      have same : row.id = a := key_of_find found
      have none : find updates row.id = none := find_eq_none.mpr fun update member here =>
        other update member (here.trans same)
      rw [Option.map_some, AccountRow.updated, none]

private theorem updated_locked {updates : List BalanceUpdate} (guarded : l.tx.Guarded)
    (applicable : Applicable w.tables updates)
    (versions : l.tx.versions.accounts = w.tables.bumped updates) (apart : Apart l o) {a : Int}
    (theirs : .account a ∈ o.tx.held) : ∀ update ∈ updates, update.accountId.value ≠ a := by
  intro update member here
  obtain ⟨row, found, -⟩ := applicable update member
  have same : row.id = update.accountId.value := key_of_find found
  have written : row.bump update ∈ l.tx.versions.accounts := by
    rw [versions]
    exact List.mem_filterMap.mpr ⟨update, member, by rw [found]; rfl⟩
  apply apart _ (guarded.accounts _ written)
  change Resource.account row.id ∈ o.tx.held
  rw [same, here]
  exact theirs

private theorem keeps_enroll {row : AccountRow} (guarded : l.tx.Guarded)
    (versions : l.tx.versions = ⟨[row], [], []⟩) (apart : Apart l o) :
    Keeps o.tx.held w { w with database := { w.database with tables := w.tables.enroll row } } where
  sequences := .refl _
  fixed id old found := ⟨⟨old, found, rfl⟩, rfl⟩
  accounts a theirs := by
    have other : row.id ≠ a := by
      rintro rfl
      exact apart _ (guarded.accounts row (by simp [versions])) theirs
    change (w.tables.enroll row).account? a = _
    rw [Tables.account?_enroll, if_neg other, Option.or_none]
  transactions _ _ := ⟨rfl, rfl⟩
  entries _ _ := id
  keys _ _ := id
  streams _ _ := rfl

private theorem keeps_hold {row : TransactionRow} {rows updates}
    (book : Consistent w.tables w.sequences) (holds : Holds w.tables w.sequences row rows updates)
    (guarded : l.tx.Guarded) (locked : .key row.idempotencyKey ∈ l.tx.held)
    (versions : l.tx.versions = ⟨w.tables.bumped updates, [row], rows⟩) (apart : Apart l o) :
    Keeps o.tx.held w
      { w with database := { w.database with tables := w.tables.hold row rows updates } } where
  sequences := .refl _
  fixed id old found := by
    have other : row.id ≠ id := by
      rintro rfl
      rw [holds.fresh] at found
      cases found
    change (∃ row', (w.tables.hold row rows updates).transaction? id = some row' ∧ _) ∧
      ((w.tables.hold row rows updates).entriesOf id).map _ = _
    rw [Tables.transaction?_hold, found, book.entriesOf_hold holds, if_neg other, if_neg other]
    exact ⟨⟨old, rfl, rfl⟩, rfl⟩
  accounts a theirs := by
    change (w.tables.hold row rows updates).account? a = _
    rw [Tables.account?_hold]
    exact updated_of_other (updated_locked guarded holds.applicable (by rw [versions]) apart theirs)
  transactions id theirs := by
    have other : row.id ≠ id := by
      rintro rfl
      exact apart _ (guarded.transactions row (by simp [versions])) theirs
    change (w.tables.hold row rows updates).transaction? id = _ ∧
      (w.tables.hold row rows updates).entriesOf id = _
    rw [Tables.transaction?_hold, book.entriesOf_hold holds, if_neg other, if_neg other,
      Option.or_none]
    exact ⟨rfl, rfl⟩
  entries id theirs absent := by
    change find (w.tables.entries ++ rows) id = none
    rw [find_append, absent, Option.none_or, find_eq_none]
    rintro e member rfl
    exact apart _ (guarded.entries e (by simpa [versions] using member)) theirs
  keys k theirs absent := by
    have other : row.idempotencyKey ≠ k := by
      rintro rfl
      exact apart _ locked theirs
    simp only [Tables.byKey?] at absent
    simp [Tables.byKey?, World.tables, Tables.hold, List.find?_append, other] at absent ⊢
    exact absent
  streams a theirs := by
    change (w.tables.hold row rows updates).stream a = _
    have none : rows.filter (fun e => e.accountId = a) = [] := by
      refine List.filter_eq_nil_iff.mpr fun e member => ?_
      obtain ⟨update, listed, same⟩ := (holds.nets.covers e.accountId).mpr
        ⟨e.line, List.mem_map_of_mem member, rfl⟩
      have other := updated_locked guarded holds.applicable (by rw [versions]) apart theirs
      simpa [same] using other update listed
    rw [Tables.stream_hold, none, List.map_nil, List.append_nil]

private theorem keeps_settle {id status : Int} {postedAt : Option Int} {row : TransactionRow}
    {updates : List BalanceUpdate} (settles : Settles w.tables id status postedAt updates)
    (found : w.tables.transaction? id = some row) (guarded : l.tx.Guarded)
    (versions : l.tx.versions = ⟨w.tables.bumped updates,
      [{ row with status := status, postedAt := postedAt }],
      (w.tables.entriesOf id).map fun e => { e with status := status }⟩) (apart : Apart l o) :
    Keeps o.tx.held w { w with database :=
      { w.database with tables := w.tables.settle id status postedAt updates } } where
  sequences := .refl _
  fixed other old there := by
    change (∃ row', (w.tables.settle id status postedAt updates).transaction? other = some row' ∧ _) ∧
      ((w.tables.settle id status postedAt updates).entriesOf other).map _ = _
    rw [Tables.transaction?_settle, there, Tables.entriesOf_settle, List.map_map]
    exact ⟨⟨_, rfl, TransactionRow.settled_fixed ..⟩,
      List.map_congr_left fun e _ => EntryRow.settled_fixed ..⟩
  accounts a theirs := by
    change (w.tables.settle id status postedAt updates).account? a = _
    rw [Tables.account?_settle]
    exact updated_of_other
      (updated_locked guarded settles.applicable (by rw [versions]) apart theirs)
  transactions other theirs := by
    have different : other ≠ id := by
      rintro rfl
      have same : row.id = other := key_of_find found
      apply apart _ (guarded.transactions _ (by rw [versions]; exact List.mem_cons_self))
      change Resource.transaction row.id ∈ o.tx.held
      rw [same]
      exact theirs
    exact ⟨w.tables.transaction?_settle_other updates status postedAt different,
      w.tables.entriesOf_settle_other updates status postedAt different⟩
  entries eid theirs absent := by
    change find (w.tables.entries.map (EntryRow.settled id status)) eid = none
    rw [find_map (EntryRow.settled_id id status), absent]
    rfl
  keys k theirs absent := by
    simp only [Tables.byKey?, List.find?_eq_none] at absent ⊢
    intro other member
    obtain ⟨old, inside, rfl⟩ := List.mem_map.mp member
    rw [TransactionRow.settled_key]
    exact absent old inside
  streams a _ := w.tables.stream_settle updates id status postedAt a

/-- Every allowed call leaves the others what they rely on. -/
theorem Keeps.call {weather : Weather} {c : Call} {answer : c.Result} {w' : World} {l' : Session}
    (book : Consistent w.tables w.sequences) (owns : Owns w l) (allowed : Allowed w l c)
    (apart : Apart l o) (ran : exec weather c w l = some (answer, w', l')) :
    Keeps o.tx.held w w' := by
  obtain ⟨tx, does, rfl⟩ := exec_does ran
  cases does with
  | give_up => exact .refl
  | apply | seed => exact .of_same_tables rfl (.refl _)
  | statement _ leaves => exact .of_same_tables leaves.tables leaves.sequences
  | commit made =>
      cases made
      change Ready w l at allowed
      change Keeps _ w { w with database :=
        { w.database with tables := w.tables.merge l.tx.versions } }
      cases allowed with
      | reading versions =>
          rw [versions]
          exact .refl
      | enrolling _ enrolls versions =>
          rw [versions, merge_enroll enrolls]
          exact keeps_enroll owns.guarded versions apart
      | holding _ _ _ _ _ holds locked versions =>
          rw [versions, merge_hold book holds]
          exact keeps_hold book holds owns.guarded locked versions apart
      | settling _ settles found versions =>
          rw [versions, merge_settle book settles found]
          exact keeps_settle settles found owns.guarded versions apart

end Laws

/-- The discipline all handlers follow. -/
def protocol : Discipline server where
  inv w := Consistent w.tables w.sequences
  own := Owns
  compat := Apart
  rely l := Keeps l.tx.held
  pre c w l := Ordered w l c ∧ Allowed w l c
  post := Promise
  rely_refl _ _ := .refl
  rely_trans first second := first.trans second
  rely_own keeps owns := ⟨fun r member => (owns.within r member).mono keeps.sequences, owns.guarded⟩
  compat_symm apart r theirs mine := apart r mine theirs
  exec_inv book _ allowed ran := consistent_call book allowed.2 ran
  exec_own book owns allowed ran := owns.call book allowed.2 ran
  exec_rely book owns allowed apart ran := .call book owns allowed.2 apart ran
  exec_compat owns apart free ran := apart.call owns free ran
  arrive_own _ _ := .of_idle rfl
  arrive_compat _ _ := .of_idle rfl
  restart_inv book := book
  lost_own _ _ := .of_idle rfl
  lost_compat _ _ := .of_idle rfl

end Fides.Ledger
