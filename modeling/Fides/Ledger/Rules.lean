import Fides.Ledger.Protocol

/-! # A rule for every call

Each rule reads one call of a handler under interference: what the handler has to
know before it, and what it knows after it when the call succeeds.  A call that
fails makes the handler give up, which it may do as long as it has not committed.
-/

namespace Fides.Ledger

open Domain Service Storage FixedWidth Relational Concurrency

/-- The program follows the protocol and keeps its promise. -/
def Meets (p : Handler Response) (w : World) (l : Session) : Prop :=
  protocol.wp (fun outcome _ l => Promise outcome l) p w l

/-- The session has not written anything. -/
structure Unwritten (l : Session) : Prop where
  versions : l.tx.versions = .empty
  summary : l.summary = .blank

namespace Unwritten

variable {l : Session}

theorem uncommitted (unwritten : Unwritten l) : l.summary.committed = false := by
  rw [unwritten.summary]
  rfl

theorem accounts (unwritten : Unwritten l) : l.tx.versions.accounts = [] := by
  rw [unwritten.versions]
  rfl

theorem transactions (unwritten : Unwritten l) : l.tx.versions.transactions = [] := by
  rw [unwritten.versions]
  rfl

theorem entries (unwritten : Unwritten l) : l.tx.versions.entries = [] := by
  rw [unwritten.versions]
  rfl

/-- Reading leaves nothing behind. -/
theorem read {c : Call} {answer : c.Result} (unwritten : Unwritten l)
    (same : l.summary.add c answer = l.summary) : Unwritten (l.record c answer l.tx) :=
  ⟨unwritten.versions, by rw [Session.summary_record, same]; exact unwritten.summary⟩

end Unwritten

variable {w : World} {l : Session}

theorem promise_error {e : Failure} (uncommitted : l.summary.committed = false) :
    Promise (.error e) l := by
  refine ⟨fun committed => ?_, nofun, fun _ _ => uncommitted⟩
  rw [uncommitted] at committed
  cases committed

theorem meets_call {c : Call} {rest : c.Result → Handler Response}
    (allowed : ∀ w', Consistent w'.tables w'.sequences → Keeps l.tx.held w w' →
      Ordered w' l c ∧ Allowed w' l c)
    (failing : ∀ {message w' answer w'' tx}, c.failed message w' l.tx = some (answer, w'', tx) →
      Meets (rest answer) w'' (l.record c answer tx))
    (next : ∀ {w' answer w'' tx}, Consistent w'.tables w'.sequences → Keeps l.tx.held w w' →
      c.perform w' l.tx = (answer, w'', tx) → Meets (rest answer) w'' (l.record c answer tx)) :
    Meets (.call c rest) w l := by
  intro w' book keeps
  refine ⟨allowed w' book keeps, fun weather answer w'' l' ran => ?_⟩
  obtain ⟨tx, out, rfl⟩ := exec_eq_some ran
  cases weather with
  | fair => exact next book keeps (Option.some.inj out)
  | fault message => exact failing out

theorem Summary.add_committed {summary : Summary} {c : Call} {answer : c.Result}
    (apart : (⟨c, answer⟩ : Answered) ≠ ⟨.commit, .ok ()⟩) :
    (summary.add c answer).committed = summary.committed := by
  cases c
  case commit =>
    cases answer with
    | ok done => exact absurd rfl apart
    | error e => rfl
  case createAccount | createTransaction | createEntry | updateTransactionStatus
      | updateAccountBalance =>
    cases answer <;> rfl
  all_goals rfl

/-- A storage call whose failure the handler passes on. -/
theorem meets_storage {α : Type} {c : Call} {next : α → Handler Response}
    (read : c.Result → Except StorageError α) (apart : c ≠ .commit)
    (uncommitted : l.summary.committed = false)
    (failing : ∀ message w' tx, ∃ answer e, read answer = .error e ∧
      c.failed message w' tx = some (answer, w', tx))
    (allowed : ∀ w', Consistent w'.tables w'.sequences → Keeps l.tx.held w w' →
      Ordered w' l c ∧ Allowed w' l c)
    (after : ∀ {w' answer value w'' tx}, Consistent w'.tables w'.sequences → Keeps l.tx.held w w' →
      c.perform w' l.tx = (answer, w'', tx) → read answer = .ok value →
      Meets (next value) w'' (l.record c answer tx)) :
    Meets (.call c fun answer => (orStorageError (read answer)).bind next) w l := by
  have gives_up : ∀ {answer e tx w''}, read answer = .error e →
      Meets ((orStorageError (read answer)).bind next) w'' (l.record c answer tx) := by
    intro answer e tx w'' wrong
    rw [wrong]
    apply promise_error
    rw [Session.summary_record,
      Summary.add_committed fun same => apart (congrArg Answered.call same)]
    exact uncommitted
  apply meets_call allowed
  · intro message w' answer w'' tx failed
    obtain ⟨given, e, wrong, same⟩ := failing message w' l.tx
    rw [same] at failed
    cases failed
    exact gives_up wrong
  · intro w' answer w'' tx book keeps ran
    cases result : read answer with
    | error e => exact result ▸ gives_up result
    | ok value => exact after book keeps ran result

theorem meets_begin {next : Unit → Handler Response} (uncommitted : l.summary.committed = false)
    (after : ∀ w', Meets (next ()) w' (l.record .begin (.ok ()) l.tx)) :
    Meets (begin >>= next) w l := by
  refine meets_storage (c := .begin) id nofun uncommitted
    (fun _ _ _ => ⟨_, _, rfl, rfl⟩) (fun _ _ _ => ⟨nofun, trivial⟩) ?_
  · intro w' answer value w'' tx _ _ ran _
    cases ran
    exact after _

theorem meets_getAccountRow {id : AccountId} {next : Option Account → Handler Response}
    (unwritten : Unwritten l)
    (after : ∀ w' answer, Meets (next answer) w' (l.record (.getAccount id) (.ok answer) l.tx)) :
    Meets (getAccountRow id >>= next) w l := by
  refine meets_storage (c := .getAccount id) (fun answer => answer) nofun unwritten.uncommitted
    (fun _ _ _ => ⟨_, _, rfl, rfl⟩) (fun _ _ _ => ⟨nofun, unwritten.accounts⟩) ?_
  · rintro w' _ value w'' tx _ _ ran rfl
    obtain ⟨database, replied, rfl⟩ := storing_eq (Storage.getAccount id) ran
    obtain ⟨-, rfl, rfl⟩ := reply_eq ((getAccount_eq id _ _).symm.trans replied)
    exact after _ value

theorem meets_getEntriesForAccount {id : AccountId} {next : List Entry → Handler Response}
    (unwritten : Unwritten l)
    (after : ∀ w' entries,
      Meets (next entries) w' (l.record (.getEntriesForAccount id) (.ok entries) l.tx)) :
    Meets (getEntriesForAccount id >>= next) w l := by
  refine meets_storage (c := .getEntriesForAccount id) (fun answer => answer) nofun
    unwritten.uncommitted (fun _ _ _ => ⟨_, _, rfl, rfl⟩)
    (fun _ _ _ => ⟨nofun, unwritten.entries⟩) ?_
  · rintro w' _ value w'' tx _ _ ran rfl
    obtain ⟨database, replied, rfl⟩ := storing_eq (Storage.getEntriesForAccount id) ran
    simp only [Storage.getEntriesForAccount, Prod.mk.injEq] at replied
    obtain ⟨-, rfl, rfl⟩ := replied
    exact after _ value

theorem meets_findTransactionByKey {key : String} {next : Option Transaction → Handler Response}
    (unwritten : Unwritten l)
    (absent : ∀ w', Meets (next none) w' (l.record (.findTransactionByKey key) (.ok none) l.tx))
    (found : ∀ w' row transaction, Consistent w'.tables w'.sequences →
      w'.tables.byKey? key = some row → buildTransaction row = .ok transaction →
      Meets (next (some transaction)) w'
        (l.record (.findTransactionByKey key) (.ok (some transaction)) l.tx)) :
    Meets (findTransactionByKey key >>= next) w l := by
  refine meets_storage (c := .findTransactionByKey key) (fun answer => answer) nofun
    unwritten.uncommitted (fun _ _ _ => ⟨_, _, rfl, rfl⟩)
    (fun _ _ _ => ⟨nofun, unwritten.transactions⟩) ?_
  · rintro w' _ value w'' tx book _ ran rfl
    obtain ⟨database, replied, rfl⟩ := storing_eq (Storage.findTransactionByKey key) ran
    obtain ⟨-, read, rfl, rfl⟩ := findTransactionByKey_ok replied
    rw [Tx.view_byKey? unwritten.transactions] at read
    cases value with
    | none => exact absent _
    | some transaction =>
        obtain ⟨row, there, built⟩ := lookup_eq_some.mp read
        exact found _ row transaction book there built

theorem meets_getTransaction {id : TransactionId} {next : Option Transaction → Handler Response}
    (unwritten : Unwritten l)
    (absent : ∀ w', Meets (next none) w' (l.record (.getTransaction id) (.ok none) l.tx))
    (found : ∀ w' row transaction, Consistent w'.tables w'.sequences →
      w'.tables.transaction? id.value = some row → buildTransaction row = .ok transaction →
      Meets (next (some transaction)) w'
        (l.record (.getTransaction id) (.ok (some transaction)) l.tx)) :
    Meets (getTransaction id >>= next) w l := by
  refine meets_storage (c := .getTransaction id) (fun answer => answer) nofun
    unwritten.uncommitted (fun _ _ _ => ⟨_, _, rfl, rfl⟩)
    (fun _ _ _ => ⟨nofun, unwritten.transactions⟩) ?_
  · rintro w' _ value w'' tx book _ ran rfl
    obtain ⟨database, replied, rfl⟩ := storing_eq (Storage.getTransaction id) ran
    obtain ⟨read, rfl, rfl⟩ := reply_eq ((getTransaction_eq id _ _).symm.trans replied)
    rw [Tx.view_transaction? unwritten.transactions] at read
    cases value with
    | none => exact absent _
    | some transaction =>
        obtain ⟨row, there, built⟩ := lookup_eq_some.mp read
        exact found _ row transaction book there built

/-- The stored entries, in the order of the table. -/
theorem meets_getEntriesForTransaction {id : TransactionId} {next : List Entry → Handler Response}
    (unwritten : Unwritten l) {row : TransactionRow}
    (present : w.tables.transaction? id.value = some row)
    (after : ∀ w' entries, Consistent w'.tables w'.sequences → Keeps l.tx.held w w' →
      entries.map Entry.line = w'.tables.lines id.value →
      Meets (next entries) w' (l.record (.getEntriesForTransaction id) (.ok entries) l.tx)) :
    Meets (getEntriesForTransaction id >>= next) w l := by
  refine meets_storage (c := .getEntriesForTransaction id) (fun answer => answer) nofun
    unwritten.uncommitted (fun _ _ _ => ⟨_, _, rfl, rfl⟩) (fun w' _ keeps => ?_) ?_
  · obtain ⟨⟨row', found, -⟩, -⟩ := keeps.fixed id.value row present
    exact ⟨nofun, unwritten.entries, row', found⟩
  · rintro w' _ entries w'' tx book keeps ran rfl
    obtain ⟨database, replied, rfl⟩ := storing_eq (Storage.getEntriesForTransaction id) ran
    simp only [Storage.getEntriesForTransaction, Prod.mk.injEq] at replied
    obtain ⟨built, rfl, rfl⟩ := replied
    rw [Tx.view_entriesOf unwritten.entries] at built
    change buildEntries (orderById (w'.tables.entriesOf id.value)) = _ at built
    rw [book.orderById_entriesOf] at built
    exact after _ entries book keeps (buildEntries_lines built)

/-- The account is locked, and is as decoded from its row. -/
theorem meets_getAccountForUpdate {id : AccountId} {next : Option Account → Handler Response}
    (unwritten : Unwritten l) (ordered : ∀ h ∈ l.tx.held, h.rank < (Resource.account id.value).rank)
    (absent : ∀ w', Meets (next none) w' (l.record (.getAccountForUpdate id) (.ok none) l.tx))
    (found : ∀ w' row account, Consistent w'.tables w'.sequences → Keeps l.tx.held w w' →
      w'.tables.account? id.value = some row → buildAccount row = .ok account →
      Meets (next (some account)) w' (l.record (.getAccountForUpdate id) (.ok (some account))
        (l.tx.lock [.account id.value]))) :
    Meets (getAccountForUpdate id >>= next) w l := by
  refine meets_storage (c := .getAccountForUpdate id) (fun answer => answer) nofun
    unwritten.uncommitted (fun _ _ _ => ⟨_, _, rfl, rfl⟩) (fun w' _ _ => ⟨?_, unwritten.accounts⟩) ?_
  · intro r needed _
    simp only [Call.needs] at needed
    split at needed
    · rw [List.mem_singleton.mp needed]
      exact ordered
    · cases needed
  · rintro w' _ value w'' tx book keeps ran rfl
    obtain ⟨database, replied, rfl⟩ := storing_eq (Storage.getAccountForUpdate id) ran
    obtain ⟨read, rfl, rfl⟩ := reply_eq ((getAccountForUpdate_eq id _ _).symm.trans replied)
    rw [Tx.view_account? unwritten.accounts] at read ⊢
    cases value with
    | none =>
        rw [lookup_eq_none.mp read]
        exact absent _
    | some account =>
        obtain ⟨row, there, built⟩ := lookup_eq_some.mp read
        rw [there]
        exact found _ row account book keeps there built

/-- A new account row, under an id no row has. -/
theorem meets_createAccountRow {accountType : AccountType} {assetCode : String}
    {assetScale : Nat} {createdAt : Int} {next : AccountId → Handler Response}
    (unwritten : Unwritten l)
    (after : ∀ (w' w'' : World) id code (row : AccountRow), Consistent w'.tables w'.sequences →
      varchar 16 assetCode = .ok code → id.value = w'.sequences.accounts + 1 →
      row = ⟨id.value, accountTypeToI16 accountType, code, assetScale, 0, 0, 0, createdAt⟩ →
      row.check = .ok row → w''.tables = w'.tables →
      w''.sequences = { w'.sequences with accounts := id.value } →
      Meets (next id) w'' (l.record (.createAccount accountType assetCode assetScale createdAt)
        (.ok id) (l.tx.writeAccount row))) :
    Meets (createAccountRow accountType assetCode assetScale createdAt >>= next) w l := by
  refine meets_storage (c := .createAccount accountType assetCode assetScale createdAt)
    (fun answer => answer) nofun unwritten.uncommitted (fun _ _ _ => ⟨_, _, rfl, rfl⟩)
    (fun _ _ _ => ⟨nofun, unwritten.uncommitted⟩) ?_
  rintro w' _ id w'' tx book _ ran rfl
  obtain ⟨database, replied, rfl⟩ :=
    storing_eq (Storage.createAccount accountType assetCode assetScale createdAt) ran
  obtain ⟨code, stored, next, rfl, row, rfl, checked, rfl⟩ := createAccount_ok replied
  exact after w' _ id code _ book stored next rfl checked rfl rfl

/-- A new transaction row, under an id and a key no row has. -/
theorem meets_createTransaction {key : String} {status : TransactionStatus} {metadata : JsonValue}
    {createdAt : Int} {postedAt : Option Int} {next : TransactionId → Handler Response}
    (unwritten : Unwritten l) (ordered : ∀ h ∈ l.tx.held, ∀ k, h.rank < (Resource.key k).rank)
    (after : ∀ (w' w'' : World) id stored (row : TransactionRow), Consistent w'.tables w'.sequences →
      Keeps l.tx.held w w' → varchar 64 key = .ok stored →
      id.value = w'.sequences.transactions + 1 → w'.tables.byKey? stored = none →
      row = ⟨id.value, stored, transactionStatusToI16 status, metadata, createdAt, postedAt⟩ →
      row.check = .ok row → w''.tables = w'.tables →
      w''.sequences = { w'.sequences with transactions := id.value } →
      Meets (next id) w'' (l.record (.createTransaction key status metadata createdAt postedAt)
        (.ok id) (l.tx.insertTransaction row))) :
    Meets (createTransaction key status metadata createdAt postedAt >>= next) w l := by
  refine meets_storage (c := .createTransaction key status metadata createdAt postedAt)
    (fun answer => answer) nofun unwritten.uncommitted (fun _ _ _ => ⟨_, _, rfl, rfl⟩)
    (fun w' _ _ => ⟨?_, unwritten.uncommitted⟩) ?_
  · intro r needed _ h held
    simp only [Call.needs] at needed
    split at needed
    · rw [List.mem_singleton.mp needed]
      exact ordered h held _
    · cases needed
  · rintro w' _ id w'' tx book keeps ran rfl
    obtain ⟨database, replied, rfl⟩ :=
      storing_eq (Storage.createTransaction key status metadata createdAt postedAt) ran
    obtain ⟨stored, kept, next, rfl, unused, row, rfl, checked, rfl⟩ := createTransaction_ok replied
    rw [Tx.view_byKey? unwritten.transactions] at unused
    exact after w' _ id stored _ book keeps kept next unused rfl checked rfl rfl

theorem meets_updateTransactionStatus {id : TransactionId} {status : TransactionStatus}
    {postedAt : Option Int} {next : Unit → Handler Response} (unwritten : Unwritten l)
    {transaction : Transaction} (pending : transaction.status = .pending)
    (seen : (⟨.getTransaction id, .ok (some transaction)⟩ : Answered) ∈ l.history)
    {old : TransactionRow} (present : w.tables.transaction? id.value = some old)
    (ordered : ∀ h ∈ l.tx.held, h.rank < (Resource.transaction id.value).rank)
    (after : ∀ w' (row : TransactionRow), Consistent w'.tables w'.sequences →
      Keeps l.tx.held w w' → w'.tables.transaction? id.value = some row →
      { row with status := transactionStatusToI16 status, postedAt := postedAt }.check =
        .ok { row with status := transactionStatusToI16 status, postedAt := postedAt } →
      Meets (next ()) w' (l.record (.updateTransactionStatus id status postedAt) (.ok ())
        (l.tx.updateTransaction
          { row with status := transactionStatusToI16 status, postedAt := postedAt }))) :
    Meets (updateTransactionStatus id status postedAt >>= next) w l := by
  refine meets_storage (c := .updateTransactionStatus id status postedAt) (fun answer => answer)
    nofun unwritten.uncommitted (fun _ _ _ => ⟨_, _, rfl, rfl⟩) (fun w' _ keeps => ⟨?_, ?_⟩) ?_
  · intro r needed _
    rw [List.mem_singleton.mp needed]
    exact ordered
  · obtain ⟨⟨row', found, -⟩, -⟩ := keeps.fixed id.value old present
    exact ⟨unwritten.uncommitted, unwritten.transactions, ⟨row', found⟩, _, pending, seen⟩
  · rintro w' _ value w'' tx book keeps ran rfl
    obtain ⟨database, replied, rfl⟩ :=
      storing_eq (Storage.updateTransactionStatus id status postedAt) ran
    obtain ⟨rfl, row, there, checked, rfl⟩ := updateTransactionStatus_ok replied
    rw [Tx.view_transaction? unwritten.transactions] at there
    exact after _ row book keeps there checked

/-- A new entry row, under an id no row has. -/
theorem meets_createEntry {transactionId : TransactionId} {accountId : AccountId}
    {entryType : EntryType} {amount : Amount} {status : EntryStatus} {createdAt : Int}
    {next : EntryId → Handler Response} (uncommitted : l.summary.committed = false)
    (unwritten : l.tx.versions.accounts = []) (locked : .account accountId.value ∈ l.tx.held)
    (after : ∀ (w' w'' : World) id (row : EntryRow), Consistent w'.tables w'.sequences →
      Keeps l.tx.held w w' → id.value = w'.sequences.entries + 1 →
      row = ⟨id.value, transactionId.value, accountId.value, entryTypeToI16 entryType,
        amount.value, entryStatusToI16 status, createdAt⟩ →
      row.check = .ok row → w''.tables = w'.tables →
      w''.sequences = { w'.sequences with entries := id.value } →
      Meets (next id) w''
        (l.record (.createEntry transactionId accountId entryType amount status createdAt) (.ok id)
          (l.tx.writeEntries [row]))) :
    Meets (createEntry transactionId accountId entryType amount status createdAt >>= next) w l := by
  refine meets_storage
    (c := .createEntry transactionId accountId entryType amount status createdAt)
    (fun answer => answer) nofun uncommitted (fun _ _ _ => ⟨_, _, rfl, rfl⟩)
    (fun w' _ _ => ⟨?_, uncommitted, unwritten, locked⟩) ?_
  · intro r needed missing
    rw [List.mem_singleton.mp needed] at missing
    exact absurd locked missing
  · rintro w' _ id w'' tx book keeps ran rfl
    obtain ⟨database, replied, rfl⟩ := storing_eq
      (Storage.createEntry transactionId accountId entryType amount status createdAt) ran
    obtain ⟨next, rfl, row, rfl, checked, rfl⟩ := createEntry_ok replied
    exact after w' _ id _ book keeps next rfl checked rfl rfl

theorem meets_updateEntryStatusByTransaction {id : TransactionId} {status : EntryStatus}
    {next : Nat → Handler Response} (uncommitted : l.summary.committed = false)
    (unwritten : l.tx.versions.entries = [])
    (ordered : ∀ h ∈ l.tx.held, ∀ e, h.rank < (Resource.entry e).rank)
    (after : ∀ w' count, Consistent w'.tables w'.sequences → Keeps l.tx.held w w' →
      Meets (next count) w' (l.record (.updateEntryStatusByTransaction id status) (.ok count)
        (l.tx.writeEntries ((w'.tables.entriesOf id.value).map fun e =>
          { e with status := entryStatusToI16 status })))) :
    Meets (updateEntryStatusByTransaction id status >>= next) w l := by
  refine meets_storage (c := .updateEntryStatusByTransaction id status) (fun answer => answer)
    nofun uncommitted (fun _ _ _ => ⟨_, _, rfl, rfl⟩) (fun w' _ _ => ⟨?_, unwritten⟩) ?_
  · intro r needed _ h held
    obtain ⟨e, -, rfl⟩ := List.mem_map.mp needed
    exact ordered h held _
  · rintro w' _ count w'' tx book keeps ran rfl
    obtain ⟨database, replied, rfl⟩ :=
      storing_eq (Storage.updateEntryStatusByTransaction id status) ran
    simp only [Storage.updateEntryStatusByTransaction, Prod.mk.injEq] at replied
    obtain ⟨-, rfl, rfl⟩ := replied
    rw [Tx.view_entriesOf unwritten]
    exact after _ count book keeps

/-- The balances of a locked account, which nobody else can have moved on. -/
theorem meets_updateAccountBalance {id : AccountId} {posted pending : Int} {row : AccountRow}
    {next : Unit → Handler Response} (uncommitted : l.summary.committed = false)
    (locked : .account id.value ∈ l.tx.held) (there : w.tables.account? id.value = some row)
    (once : ∀ version ∈ l.tx.versions.accounts, version.id ≠ id.value)
    (after : ∀ w', Consistent w'.tables w'.sequences → Keeps l.tx.held w w' →
      Fits 64 (row.postedBalance + posted) → Fits 64 (row.pendingBalance + pending) →
      Fits 32 (row.version + 1) →
      Meets (next ()) w' (l.record (.updateAccountBalance id row.version posted pending) (.ok ())
        (l.tx.writeAccount (row.bump ⟨id, posted, pending⟩)))) :
    Meets (updateAccountBalance id row.version posted pending >>= next) w l := by
  have seen : ∀ {w'}, Keeps l.tx.held w w' →
      (l.tx.view w'.database).account? id.value = some row := by
    intro w' keeps
    have kept := keeps.accounts id.value locked
    rw [there] at kept
    exact (find_merge_of_other once w'.tables.accounts).trans kept
  refine meets_storage (c := .updateAccountBalance id row.version posted pending)
    (fun answer => answer) nofun uncommitted (fun _ _ _ => ⟨_, _, rfl, rfl⟩)
    (fun w' book keeps => ⟨?_, uncommitted, locked, row, seen keeps, rfl, ?_⟩) ?_
  · intro r needed missing
    rw [List.mem_singleton.mp needed] at missing
    exact absurd locked missing
  · have kept := (keeps.accounts id.value locked).trans there
    exact (book.accountRows row (mem_of_find kept)).1.version.2
  · rintro w' _ value w'' tx book keeps ran rfl
    obtain ⟨database, replied, rfl⟩ :=
      storing_eq (Storage.updateAccountBalance id row.version posted pending) ran
    obtain ⟨rfl, same, found, fitsPosted, fitsPending, fitsVersion, rfl⟩ :=
      updateAccountBalance_ok replied
    rw [seen keeps] at found
    cases found
    exact after _ book keeps fitsPosted fitsPending fitsVersion

theorem meets_commit {next : Unit → Handler Response} (uncommitted : l.summary.committed = false)
    (ready : ∀ w', Consistent w'.tables w'.sequences → Keeps l.tx.held w w' → Ready w' l)
    (after : ∀ w', Meets (next ()) w' (l.record .commit (.ok ()) .idle)) :
    Meets (commit >>= next) w l := by
  apply meets_call
  · exact fun w' book keeps => ⟨nofun, ready w' book keeps⟩
  · intro message w' answer w'' tx failed
    cases failed
    exact promise_error (by rw [Session.summary_record]; exact uncommitted)
  · intro w' answer w'' tx _ _ ran
    cases ran
    exact after _

theorem meets_cacheGet {id : AccountId} {next : Option AccountBalance → Handler Response}
    (after : ∀ w' balance, Keeps l.tx.held w w' →
      Meets (next balance) w' (l.record (.cacheGet id) balance l.tx)) :
    Meets (cacheGet id >>= next) w l := by
  apply meets_call
  · exact fun _ _ _ => ⟨nofun, trivial⟩
  · intro message w' answer w'' tx failed
    cases failed
  · intro w' answer w'' tx _ keeps ran
    cases ran
    exact after _ _ keeps

theorem meets_cacheSet {id : AccountId} {next : Unit → Handler Response} {req now}
    (request : l.request = .createAccount req now)
    (summary : l.summary = { Summary.blank with committed := true, opened := [id] })
    (after : ∀ w', Meets (next ()) w' (l.record (.cacheSet id 0 0) () l.tx)) :
    Meets (cacheSet id 0 0 >>= next) w l := by
  apply meets_call
  · exact fun w' _ _ => ⟨nofun, summary, rfl, rfl, req, now, request⟩
  · intro message w' answer w'' tx failed
    cases failed
  · intro w' answer w'' tx _ _ ran
    cases ran
    exact after _

/-- The whole update of the cache, once the commit is through. -/
theorem meets_updateCache (done : List BalanceUpdate) {updates : List BalanceUpdate}
    {next : Unit → Handler Response} (committed : l.summary.committed = true)
    (applied : l.summary.applied = done) (written : l.summary.written = done ++ updates)
    (after : ∀ w' l', l'.request = l.request → (∀ answered ∈ l.history, answered ∈ l'.history) →
      l'.summary = { l.summary with applied := done ++ updates } → Meets (next ()) w' l') :
    Meets (updateCache updates >>= next) w l := by
  induction updates generalizing w l done with
  | nil =>
      apply after w l rfl fun _ => id
      rw [List.append_nil, ← applied]
  | cons update updates ih =>
      change Meets (cacheApplyDelta update.accountId update.postedDelta update.pendingDelta >>=
        fun _ => updateCache updates >>= next) w l
      apply meets_call
      · intro w' _ _
        refine ⟨nofun, committed, updates, ?_⟩
        rw [applied, written, List.append_assoc, List.singleton_append]
      · intro message w' answer w'' tx failed
        cases failed
      · intro w' answer w'' tx _ _ ran
        cases ran
        apply ih (done ++ [update])
        · rw [Session.summary_record]
          exact committed
        · rw [Session.summary_record]
          exact congrArg (· ++ [update]) applied
        · rw [Session.summary_record, ← List.append_cons]
          exact written
        · intro w' l' request history summary
          apply after w' l' request fun answered member =>
            history answered (List.mem_append_left _ member)
          rw [summary, Session.summary_record, ← List.append_cons]
          rfl

theorem mapError_eq_ok {ε ε' α : Type} {f : ε → ε'} {result : Except ε α} {value : α} :
    result.mapError f = .ok value ↔ result = .ok value := by
  cases result <;> simp [Except.mapError]

theorem meets_orReject {α : Type} {result : Except ServiceError α} {next : α → Handler Response}
    (uncommitted : l.summary.committed = false)
    (after : ∀ value, result = .ok value → Meets (next value) w l) :
    Meets (orReject result >>= next) w l := by
  cases result with
  | ok value => exact after value rfl
  | error e => exact promise_error uncommitted

/-- The last steps of a handler that has committed and owes nothing to the cache. -/
theorem meets_answer {α : Type} {result : Except ServiceError α} {value : α}
    {response : α → Response} (done : result = .ok value) (even : SettledUp l)
    (reports : Reports l (response value)) :
    Meets (orReject result >>= fun value => pure (response value)) w l := by
  subst done
  refine ⟨even, fun _ same => ?_, nofun⟩
  cases same
  exact reports

/-- The end of a writing handler: commit, bring the cache up to date, answer. -/
theorem meets_finish {updates : List BalanceUpdate} {α : Type} {result : Except ServiceError α}
    {value : α} {response : α → Response} (done : result = .ok value)
    (uncommitted : l.summary.committed = false) (unapplied : l.summary.applied = [])
    (written : l.summary.written = updates)
    (unopened : l.summary.seeded = l.summary.opened)
    (reports : ∀ l' : Session, l'.request = l.request →
      (∀ answered ∈ l.history, answered ∈ l'.history) →
      l'.summary = { l.summary with committed := true, applied := updates } →
      Reports l' (response value))
    (ready : ∀ w', Consistent w'.tables w'.sequences → Keeps l.tx.held w w' → Ready w' l) :
    Meets (commit >>= fun _ => updateCache updates >>= fun _ =>
      orReject result >>= fun value => pure (response value)) w l := by
  apply meets_commit uncommitted ready
  intro w'
  have after : (l.record .commit (.ok ()) .idle).summary = { l.summary with committed := true } := by
    rw [Session.summary_record]
    rfl
  apply meets_updateCache [] (by rw [after]) (by rw [after]; exact unapplied)
    (by rw [after]; exact written)
  intro w'' l' request history summary
  rw [after] at summary
  apply meets_answer done
  · intro _
    rw [summary]
    exact ⟨written.symm, unopened⟩
  · exact reports l' request
      (fun answered member => history answered (List.mem_append_left _ member)) summary

/-- Leaving the scope of the database transaction with an error rolls it back. -/
theorem meets_inTransaction {body : Handler Response} (unwritten : Unwritten l)
    (inside : ∀ w', Meets body w' (l.record .begin (.ok ()) l.tx)) :
    Meets (inTransaction body) w l := by
  apply meets_begin unwritten.uncommitted
  intro w'
  apply Discipline.wp_onError
  refine Discipline.wp_mono ?_ (inside w')
  intro outcome w'' l' promise
  cases outcome with
  | ok response => exact promise
  | error e =>
      apply meets_call
      · exact fun _ _ _ => ⟨nofun, trivial⟩
      · intro message w' answer w'' tx failed
        cases failed
      · intro w' answer w'' tx _ _ ran
        cases ran
        refine ⟨?_, nofun, fun _ _ => ?_⟩
        · rw [SettledUp, Session.summary_record]
          exact promise.1
        · rw [Session.summary_record]
          exact promise.2.2 e rfl

end Fides.Ledger
