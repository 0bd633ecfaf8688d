import Fides.Ledger.Book
import Fides.Service.History

/-! # What a statement leaves behind

Short of a commit, a storage call changes no committed row.  It leaves row
versions and locks in its transaction: locks it had to ask for, on rows that are
there, and locks on rows with an id no one has seen.
-/

namespace Fides.Storage

open Relational Ledger

/-- The id was handed out. -/
def Resource.Within (ids : Sequences) : Resource → Prop
  | .account id => id ≤ ids.accounts
  | .transaction id => id ≤ ids.transactions
  | .entry id => id ≤ ids.entries
  | .key _ => True

def Resource.Present (t : Tables) : Resource → Prop
  | .account id => (t.account? id).isSome
  | .transaction id => (t.transaction? id).isSome
  | .entry id => ∃ e ∈ t.entries, e.id = id
  | .key _ => True

/-- A transaction has locked every row it has a version of. -/
structure Tx.Guarded (tx : Tx) : Prop where
  accounts : ∀ row ∈ tx.versions.accounts, .account row.id ∈ tx.held
  transactions : ∀ row ∈ tx.versions.transactions, .transaction row.id ∈ tx.held
  entries : ∀ e ∈ tx.versions.entries, .entry e.id ∈ tx.held

theorem Resource.Within.mono {ids later : Sequences} (grown : Before ids later) {r : Resource}
    (within : r.Within ids) : r.Within later := by
  cases r with
  | account id => exact le_trans within grown.accounts
  | transaction id => exact le_trans within grown.transactions
  | entry id => exact le_trans within grown.entries
  | key k => trivial

namespace Tx

variable {tx : Tx} {db : Database}

theorem view_account? (unwritten : tx.versions.accounts = []) (a : Int) :
    (tx.view db).account? a = db.tables.account? a := by
  simp [view, Tables.merge, Tables.account?, unwritten, merge]

theorem view_transaction? (unwritten : tx.versions.transactions = []) (id : Int) :
    (tx.view db).transaction? id = db.tables.transaction? id := by
  simp [view, Tables.merge, Tables.transaction?, unwritten, merge]

theorem view_byKey? (unwritten : tx.versions.transactions = []) (key : String) :
    (tx.view db).byKey? key = db.tables.byKey? key := by
  simp [view, Tables.merge, Tables.byKey?, unwritten, merge]

theorem view_entries (unwritten : tx.versions.entries = []) :
    (tx.view db).entries = db.tables.entries := by
  simp [view, Tables.merge, unwritten, merge]

theorem view_entriesOf (unwritten : tx.versions.entries = []) (id : Int) :
    (tx.view db).entriesOf id = db.tables.entriesOf id := by
  rw [Tables.entriesOf, view_entries unwritten, Tables.entriesOf]

end Tx
end Fides.Storage

namespace Fides.Ledger

open Domain Service Storage FixedWidth Relational

structure Leaves (needs : List Resource) (db : Database) (tx : Tx) (db' : Database) (tx' : Tx) :
    Prop where
  tables : db'.tables = db.tables
  sequences : Before db.sequences db'.sequences
  locks : ∃ added, tx'.held = tx.held ++ added ∧ ∀ r ∈ added,
    r ∈ needs ∧ r.Present (tx.view db) ∨ ¬ r.Within db.sequences ∧ r.Within db'.sequences
  guarded : tx.Guarded → tx'.Guarded

namespace Leaves

variable {needs : List Resource} {db db' : Database} {tx : Tx}

/-- The transaction is as it was; at most an id was drawn. -/
theorem unchanged (tables : db'.tables = db.tables) (sequences : Before db.sequences db'.sequences) :
    Leaves needs db tx db' tx :=
  ⟨tables, sequences, ⟨[], by simp, by simp⟩, id⟩

theorem refl : Leaves needs db tx db tx := unchanged rfl (.refl _)

theorem of_read {α : Type} {read answer : Except StorageError α} {tx' : Tx}
    (replied : (read, db, tx) = (answer, db', tx')) : Leaves needs db tx db' tx' := by
  cases replied
  exact refl

end Leaves

section Writes

variable {tx : Tx} (guarded : tx.Guarded)

include guarded

private theorem guarded_lock (resources : List Resource) : (tx.lock resources).Guarded where
  accounts row member := List.mem_append_left _ (guarded.accounts row member)
  transactions row member := List.mem_append_left _ (guarded.transactions row member)
  entries e member := List.mem_append_left _ (guarded.entries e member)

private theorem guarded_writeAccount (row : AccountRow) : (tx.writeAccount row).Guarded where
  accounts other member := by
    rcases List.mem_append.mp member with old | new
    · exact List.mem_append_left _ (guarded.accounts other old)
    · rw [List.mem_singleton.mp new]
      exact List.mem_append_right _ List.mem_cons_self
  transactions other member := List.mem_append_left _ (guarded.transactions other member)
  entries e member := List.mem_append_left _ (guarded.entries e member)

private theorem guarded_insertTransaction (row : TransactionRow) :
    (tx.insertTransaction row).Guarded where
  accounts other member := List.mem_append_left _ (guarded.accounts other member)
  transactions other member := by
    rcases List.mem_append.mp member with old | new
    · exact List.mem_append_left _ (guarded.transactions other old)
    · rw [List.mem_singleton.mp new]
      exact List.mem_append_right _ List.mem_cons_self
  entries e member := List.mem_append_left _ (guarded.entries e member)

private theorem guarded_updateTransaction (row : TransactionRow) :
    (tx.updateTransaction row).Guarded where
  accounts other member := List.mem_append_left _ (guarded.accounts other member)
  transactions other member := by
    rcases List.mem_append.mp member with old | new
    · exact List.mem_append_left _ (guarded.transactions other old)
    · rw [List.mem_singleton.mp new]
      exact List.mem_append_right _ List.mem_cons_self
  entries e member := List.mem_append_left _ (guarded.entries e member)

private theorem guarded_writeEntries (rows : List EntryRow) : (tx.writeEntries rows).Guarded where
  accounts other member := List.mem_append_left _ (guarded.accounts other member)
  transactions other member := List.mem_append_left _ (guarded.transactions other member)
  entries e member := by
    rcases List.mem_append.mp member with old | new
    · exact List.mem_append_left _ (guarded.entries e old)
    · exact List.mem_append_right _ (List.mem_map_of_mem new)

end Writes

theorem nextval_ok {last id : Int} (drawn : nextval last = .ok id) : id = last + 1 := by
  unfold nextval at drawn
  split at drawn
  · cases drawn
    rfl
  · cases drawn

private theorem drawn_accounts {db : Database} {id : Int}
    (drawn : nextval db.sequences.accounts = .ok id) :
    Before db.sequences { db.sequences with accounts := id } := by
  have := nextval_ok drawn
  exact ⟨by simp only; omega, le_refl _, le_refl _⟩

private theorem drawn_transactions {db : Database} {id : Int}
    (drawn : nextval db.sequences.transactions = .ok id) :
    Before db.sequences { db.sequences with transactions := id } := by
  have := nextval_ok drawn
  exact ⟨le_refl _, by simp only; omega, le_refl _⟩

private theorem drawn_entries {db : Database} {id : Int}
    (drawn : nextval db.sequences.entries = .ok id) :
    Before db.sequences { db.sequences with entries := id } := by
  have := nextval_ok drawn
  exact ⟨le_refl _, le_refl _, by simp only; omega⟩

section Lookups

variable {ρ α : Type} {build : ρ → Except StorageError α} {row? : Option ρ}

/-- What a call answers that looks for a row and decodes it. -/
def lookup (build : ρ → Except StorageError α) : Option ρ → Except StorageError (Option α)
  | none => .ok none
  | some row => (build row).map some

theorem lookup_eq_none : lookup build row? = .ok none ↔ row? = none := by
  cases row? with
  | none => simp [lookup]
  | some row => cases built : build row <;> simp [lookup, built, Except.map]

theorem lookup_eq_some {value : α} :
    lookup build row? = .ok (some value) ↔ ∃ row, row? = some row ∧ build row = .ok value := by
  cases row? with
  | none => simp [lookup]
  | some row => cases built : build row <;> simp [lookup, built, Except.map]

theorem lookup_ok (decodes : ∀ row, row? = some row → ∃ value, build row = .ok value) :
    ∃ found, lookup build row? = .ok found := by
  cases row? with
  | none => exact ⟨none, rfl⟩
  | some row =>
      obtain ⟨value, built⟩ := decodes row rfl
      exact ⟨some value, by simp [lookup, built, Except.map]⟩

end Lookups

section Calls

variable {db db' : Database} {tx tx' : Tx}

/-- A new account row, with the next id. -/
theorem createAccount_ok {accountType assetCode assetScale createdAt} {id : AccountId}
    (replied : Storage.createAccount accountType assetCode assetScale createdAt db tx =
      (.ok id, db', tx')) :
    ∃ code, varchar 16 assetCode = .ok code ∧ id.value = db.sequences.accounts + 1 ∧
      db' = { db with sequences := { db.sequences with accounts := id.value } } ∧
      ∃ row : AccountRow, row = ⟨id.value, accountTypeToI16 accountType, code, assetScale, 0, 0, 0,
        createdAt⟩ ∧ row.check = .ok row ∧ tx' = tx.writeAccount row := by
  simp only [Storage.createAccount, sqlFailure] at replied
  split at replied
  · cases replied
  rename_i code stored
  split at replied
  · cases replied
  rename_i next drawn
  split at replied
  · cases replied
  rename_i row checked
  obtain ⟨rfl, -⟩ := AccountRow.check_ok checked
  cases replied
  exact ⟨code, stored, nextval_ok drawn, rfl, _, rfl, checked, rfl⟩

theorem createAccount_leaves {accountType assetCode assetScale createdAt answer}
    (needs : List Resource)
    (replied : Storage.createAccount accountType assetCode assetScale createdAt db tx =
      (answer, db', tx')) : Leaves needs db tx db' tx' := by
  cases answer with
  | ok id =>
      obtain ⟨code, -, next, rfl, row, rfl, -, rfl⟩ := createAccount_ok replied
      refine ⟨rfl, ⟨by simp only; omega, le_refl _, le_refl _⟩, ⟨_, rfl, ?_⟩,
        fun guarded => guarded_writeAccount guarded _⟩
      intro r member
      rw [List.mem_singleton.mp member]
      refine .inr ⟨?_, ?_⟩ <;> simp only [Resource.Within] <;> omega
  | error e =>
      simp only [Storage.createAccount, sqlFailure] at replied
      split at replied
      · cases replied
        exact .refl
      split at replied
      · cases replied
        exact .refl
      rename_i next drawn
      have grown := drawn_accounts drawn
      split at replied
      · cases replied
        exact .unchanged rfl grown
      · cases replied

theorem reply_eq {α : Type} {read answer : Except StorageError α}
    (replied : (read, db, tx) = (answer, db', tx')) : read = answer ∧ db' = db ∧ tx' = tx := by
  cases replied
  exact ⟨rfl, rfl, rfl⟩

theorem getAccount_eq (id : AccountId) (db : Database) (tx : Tx) : Storage.getAccount id db tx =
    (lookup buildAccount ((tx.view db).account? id.value), db, tx) := by
  unfold Storage.getAccount
  split <;> simp [lookup, *]

/-- The row is locked as it is decoded. -/
theorem getAccountForUpdate_eq (id : AccountId) (db : Database) (tx : Tx) :
    Storage.getAccountForUpdate id db tx =
      (lookup buildAccount ((tx.view db).account? id.value), db,
        if ((tx.view db).account? id.value).isSome then tx.lock [.account id.value] else tx) := by
  unfold Storage.getAccountForUpdate
  split <;> simp [lookup, *]

theorem getAccountForUpdate_leaves {id : AccountId} {answer}
    (replied : Storage.getAccountForUpdate id db tx = (answer, db', tx')) :
    Leaves ((Call.getAccountForUpdate id).needs (tx.view db)) db tx db' tx' := by
  simp only [Storage.getAccountForUpdate] at replied
  split at replied
  · cases replied
    exact .refl
  · rename_i row found
    cases replied
    refine ⟨rfl, .refl _, ⟨_, rfl, ?_⟩, fun guarded => guarded_lock guarded _⟩
    intro r member
    rw [List.mem_singleton.mp member]
    exact .inl ⟨by simp [Call.needs, found], by simp [Resource.Present, found]⟩

/-- A value is stored as it is. -/
theorem jsonb_ok {value stored : JsonValue} (fit : jsonb value = .ok stored) : stored = value := by
  unfold jsonb at fit
  split at fit <;> cases fit
  rfl

/-- A new transaction row, with the next id, under a key that no row carries. -/
theorem createTransaction_ok {idempotencyKey status metadata createdAt postedAt}
    {id : TransactionId}
    (replied : Storage.createTransaction idempotencyKey status metadata createdAt postedAt db tx =
      (.ok id, db', tx')) :
    ∃ key, varchar 64 idempotencyKey = .ok key ∧ id.value = db.sequences.transactions + 1 ∧
      db' = { db with sequences := { db.sequences with transactions := id.value } } ∧
      (tx.view db).byKey? key = none ∧
      ∃ row : TransactionRow, row = ⟨id.value, key, transactionStatusToI16 status, metadata,
        createdAt, postedAt⟩ ∧ row.check = .ok row ∧ tx' = tx.insertTransaction row := by
  simp only [Storage.createTransaction, sqlFailure] at replied
  split at replied
  · cases replied
  split at replied
  · cases replied
  · cases replied
  rename_i value key fit stored
  obtain rfl := jsonb_ok fit
  split at replied
  · cases replied
  rename_i next drawn
  split at replied
  · cases replied
  rename_i row checked
  obtain ⟨rfl, -⟩ := TransactionRow.check_ok checked
  split at replied
  · cases replied
  rename_i unused
  cases replied
  exact ⟨key, stored, nextval_ok drawn, rfl, by simpa [Tx.view] using unused, _, rfl, checked, rfl⟩

theorem createTransaction_leaves {idempotencyKey status metadata createdAt postedAt answer}
    (replied : Storage.createTransaction idempotencyKey status metadata createdAt postedAt db tx =
      (answer, db', tx')) :
    Leaves ((Call.createTransaction idempotencyKey status metadata createdAt postedAt).needs
      (tx.view db)) db tx db' tx' := by
  cases answer with
  | ok id =>
      obtain ⟨key, stored, next, rfl, -, row, rfl, -, rfl⟩ := createTransaction_ok replied
      refine ⟨rfl, ⟨le_refl _, by simp only; omega, le_refl _⟩, ⟨_, rfl, ?_⟩,
        fun guarded => guarded_insertTransaction guarded _⟩
      intro r member
      rcases List.mem_cons.mp member with rfl | last
      · refine .inr ⟨?_, ?_⟩ <;> simp only [Resource.Within] <;> omega
      · rw [List.mem_singleton.mp last]
        exact .inl ⟨by simp [Call.needs, stored], trivial⟩
  | error e =>
      simp only [Storage.createTransaction, sqlFailure] at replied
      split at replied
      · cases replied
        exact .refl
      split at replied
      · cases replied
        exact .refl
      · cases replied
        exact .refl
      split at replied
      · cases replied
        exact .refl
      rename_i next drawn
      have grown := drawn_transactions drawn
      split at replied
      · cases replied
        exact .unchanged rfl grown
      split at replied <;> cases replied
      exact .unchanged rfl grown

theorem getTransaction_eq (id : TransactionId) (db : Database) (tx : Tx) :
    Storage.getTransaction id db tx =
      (lookup buildTransaction ((tx.view db).transaction? id.value), db, tx) := by
  unfold Storage.getTransaction
  split <;> simp [lookup, *]

/-- A text that a column can hold. -/
def Storable (text : String) : Prop := text.toList.any (· = Char.ofNat 0) = false

theorem varchar_short {limit : Nat} {text stored : String} (short : text.length ≤ limit)
    (kept : varchar limit text = .ok stored) : stored = text := by
  rw [varchar, if_pos short] at kept
  split at kept <;> cases kept
  rfl

theorem varchar_storable {limit : Nat} {text stored : String}
    (kept : varchar limit text = .ok stored) : Storable stored := by
  unfold varchar at kept
  split at kept
  · cases kept
  · rename_i clean
    have part : ∀ c ∈ stored.toList, c ∈ text.toList := by
      repeat' split at kept
      all_goals cases kept
      · exact fun _ member => member
      · simpa using fun c member => List.mem_of_mem_take member
    refine List.any_eq_false.mpr fun c member null => clean ?_
    exact List.any_eq_true.mpr ⟨c, part c member, null⟩

theorem findTransactionByKey_eq {key : String} (storable : Storable key) (db : Database) (tx : Tx) :
    Storage.findTransactionByKey key db tx =
      (lookup buildTransaction ((tx.view db).byKey? key), db, tx) := by
  rw [Storage.findTransactionByKey, if_neg (by simp [show _ = false from storable])]
  split <;> simp [lookup, *]

/-- A key that no column can hold is refused. -/
theorem findTransactionByKey_null {key : String} (null : ¬ Storable key) (db : Database) (tx : Tx) :
    Storage.findTransactionByKey key db tx = (.error (.ofSqlx .invalidByteSequence), db, tx) := by
  rw [Storage.findTransactionByKey, if_pos (Bool.not_eq_false _ ▸ null)]
  rfl

theorem findTransactionByKey_ok {key : String} {found : Option Transaction}
    (replied : Storage.findTransactionByKey key db tx = (.ok found, db', tx')) :
    Storable key ∧ lookup buildTransaction ((tx.view db).byKey? key) = .ok found ∧
      db' = db ∧ tx' = tx := by
  by_cases storable : Storable key
  · exact ⟨storable, reply_eq ((findTransactionByKey_eq storable db tx).symm.trans replied)⟩
  · rw [findTransactionByKey_null storable] at replied
    cases replied

/-- The status is set on the row as it is seen. -/
theorem updateTransactionStatus_ok {id : TransactionId} {status postedAt}
    (replied : Storage.updateTransactionStatus id status postedAt db tx = (.ok (), db', tx')) :
    db' = db ∧ ∃ row, (tx.view db).transaction? id.value = some row ∧
      { row with status := transactionStatusToI16 status, postedAt := postedAt }.check =
        .ok { row with status := transactionStatusToI16 status, postedAt := postedAt } ∧
      tx' = tx.updateTransaction
        { row with status := transactionStatusToI16 status, postedAt := postedAt } := by
  simp only [Storage.updateTransactionStatus, sqlFailure] at replied
  split at replied
  · cases replied
  rename_i row found
  split at replied
  · cases replied
  rename_i checked ok
  obtain ⟨rfl, -⟩ := TransactionRow.check_ok ok
  cases replied
  exact ⟨rfl, row, found, ok, rfl⟩

theorem updateTransactionStatus_leaves {id : TransactionId} {status postedAt answer}
    (replied : Storage.updateTransactionStatus id status postedAt db tx = (answer, db', tx')) :
    Leaves ((Call.updateTransactionStatus id status postedAt).needs (tx.view db))
      db tx db' tx' := by
  cases answer with
  | ok done =>
      obtain ⟨rfl, row, found, -, rfl⟩ := updateTransactionStatus_ok replied
      refine ⟨rfl, .refl _, ⟨_, rfl, ?_⟩, fun guarded => guarded_updateTransaction guarded _⟩
      intro r member
      have same : row.id = id.value := key_of_find found
      rw [List.mem_singleton.mp member]
      simp [Call.needs, Resource.Present, same, found]
  | error e =>
      simp only [Storage.updateTransactionStatus, sqlFailure] at replied
      split at replied
      · cases replied
        exact .refl
      split at replied <;> cases replied
      exact .refl

/-- A new entry row, with the next id, of a transaction and an account that are there. -/
theorem createEntry_ok {transactionId accountId entryType amount status createdAt}
    {id : EntryId}
    (replied : Storage.createEntry transactionId accountId entryType amount status createdAt db tx =
      (.ok id, db', tx')) :
    id.value = db.sequences.entries + 1 ∧
      db' = { db with sequences := { db.sequences with entries := id.value } } ∧
      ∃ row : EntryRow, row = ⟨id.value, transactionId.value, accountId.value,
        entryTypeToI16 entryType, amount.value, entryStatusToI16 status, createdAt⟩ ∧
        row.check = .ok row ∧ tx' = tx.writeEntries [row] := by
  simp only [Storage.createEntry, sqlFailure] at replied
  split at replied
  · cases replied
  rename_i next drawn
  split at replied
  · cases replied
  rename_i row checked
  obtain ⟨rfl, -⟩ := EntryRow.check_ok checked
  split at replied
  · cases replied
  split at replied
  · cases replied
  cases replied
  exact ⟨nextval_ok drawn, rfl, _, rfl, checked, rfl⟩

theorem createEntry_leaves {transactionId accountId entryType amount status createdAt answer}
    (needs : List Resource)
    (replied : Storage.createEntry transactionId accountId entryType amount status createdAt db tx =
      (answer, db', tx')) : Leaves needs db tx db' tx' := by
  cases answer with
  | ok id =>
      obtain ⟨next, rfl, row, rfl, -, rfl⟩ := createEntry_ok replied
      refine ⟨rfl, ⟨le_refl _, le_refl _, by simp only; omega⟩, ⟨_, rfl, ?_⟩,
        fun guarded => guarded_writeEntries guarded _⟩
      intro r member
      rw [List.mem_singleton.mp member]
      refine .inr ⟨?_, ?_⟩ <;> simp only [Resource.Within] <;> omega
  | error e =>
      simp only [Storage.createEntry, sqlFailure] at replied
      split at replied
      · cases replied
        exact .refl
      rename_i next drawn
      have grown := drawn_entries drawn
      split at replied
      · cases replied
        exact .unchanged rfl grown
      split at replied
      · cases replied
        exact .unchanged rfl grown
      split at replied <;> cases replied
      exact .unchanged rfl grown

theorem updateEntryStatusByTransaction_leaves {id : TransactionId} {status answer}
    (replied : Storage.updateEntryStatusByTransaction id status db tx = (answer, db', tx')) :
    Leaves ((Call.updateEntryStatusByTransaction id status).needs (tx.view db))
      db tx db' tx' := by
  cases replied
  refine ⟨rfl, .refl _, ⟨_, rfl, ?_⟩, fun guarded => guarded_writeEntries guarded _⟩
  intro r member
  simp only [List.map_map, List.mem_map] at member
  obtain ⟨e, inside, rfl⟩ := member
  refine .inl ⟨List.mem_map.mpr ⟨e, inside, rfl⟩, e, ?_, rfl⟩
  exact ((Tables.mem_entriesOf _).mp inside).1

/-- The balances of the row with the expected version. -/
theorem updateAccountBalance_ok {id : AccountId} {version posted pending}
    (replied : Storage.updateAccountBalance id version posted pending db tx = (.ok (), db', tx')) :
    db' = db ∧ ∃ row, (tx.view db).account? id.value = some row ∧
      Fits 64 (row.postedBalance + posted) ∧ Fits 64 (row.pendingBalance + pending) ∧
      Fits 32 (row.version + 1) ∧ tx' = tx.writeAccount (row.bump ⟨id, posted, pending⟩) := by
  simp only [Storage.updateAccountBalance, sqlFailure] at replied
  split at replied
  · cases replied
  rename_i row found
  split at replied
  · split at replied
    · cases replied
    rename_i fitsPosted
    split at replied
    · cases replied
    rename_i fitsPending
    split at replied
    · cases replied
    rename_i fitsVersion
    cases replied
    exact ⟨rfl, row, found, not_not.mp fitsPosted, not_not.mp fitsPending,
      not_not.mp fitsVersion, rfl⟩
  · cases replied

theorem updateAccountBalance_leaves {id : AccountId} {version posted pending answer}
    (replied : Storage.updateAccountBalance id version posted pending db tx = (answer, db', tx')) :
    Leaves ((Call.updateAccountBalance id version posted pending).needs (tx.view db))
      db tx db' tx' := by
  cases answer with
  | ok done =>
      obtain ⟨rfl, row, found, -, -, -, rfl⟩ := updateAccountBalance_ok replied
      refine ⟨rfl, .refl _, ⟨_, rfl, ?_⟩, fun guarded => guarded_writeAccount guarded _⟩
      intro r member
      have same : row.id = id.value := key_of_find found
      rw [List.mem_singleton.mp member]
      simp [Call.needs, Resource.Present, AccountRow.bump, same, found]
  | error e =>
      simp only [Storage.updateAccountBalance, sqlFailure] at replied
      split at replied
      · cases replied
        exact .refl
      split at replied
      · repeat (split at replied; · cases replied; exact .refl)
        cases replied
      · cases replied
        exact .refl

/-- A balance update that finds the version it expects does not conflict. -/
theorem updateAccountBalance_no_conflict {id : AccountId} {version posted pending answer}
    {row : AccountRow} (found : (tx.view db).account? id.value = some row)
    (current : row.version = wrap 32 version)
    (replied : Storage.updateAccountBalance id version posted pending db tx = (answer, db', tx'))
    (entity : String) (conflicting expected actual : Int) :
    answer ≠ .error (.versionConflict entity conflicting expected actual) := by
  simp only [Storage.updateAccountBalance, sqlFailure, found, if_pos current] at replied
  rintro rfl
  repeat' split at replied
  all_goals simp [StorageError.ofSqlx] at replied

end Calls

section Reads

variable {weather : Weather} {w w' : World} {l l' : Session}

/-- A call that a fault makes fail answers with an error. -/
theorem exec_fair {c : Call} {answer : c.Result} (ran : exec weather c w l = some (answer, w', l'))
    (fine : (⟨c, answer⟩ : Answered).error = none) : exec .fair c w l = some (answer, w', l') := by
  cases weather with
  | fair => exact ran
  | fault message =>
      obtain ⟨tx, out, -⟩ := exec_eq_some ran
      cases c <;> cases out <;> cases fine

/-- What a session reads that has no versions of its own is what is committed. -/
theorem exec_getAccount (unwritten : l.tx.versions.accounts = []) (id : AccountId) :
    exec .fair (.getAccount id) w l =
      some (lookup buildAccount (w.tables.account? id.value), w,
        l.record (.getAccount id) (lookup buildAccount (w.tables.account? id.value)) l.tx) := by
  simp [exec, Call.run, Call.perform, storing, getAccount_eq, Tx.view_account? unwritten,
    World.tables]

theorem exec_getTransaction (unwritten : l.tx.versions.transactions = []) (id : TransactionId) :
    exec .fair (.getTransaction id) w l =
      some (lookup buildTransaction (w.tables.transaction? id.value), w,
        l.record (.getTransaction id) (lookup buildTransaction (w.tables.transaction? id.value))
          l.tx) := by
  simp [exec, Call.run, Call.perform, storing, getTransaction_eq, Tx.view_transaction? unwritten,
    World.tables]

theorem getTransaction_answer {id : TransactionId} {found : Option Transaction}
    (unwritten : l.tx.versions.transactions = [])
    (ran : exec weather (.getTransaction id) w l = some (.ok found, w', l')) :
    lookup buildTransaction (w.tables.transaction? id.value) = .ok found ∧ w' = w := by
  have same := (exec_getTransaction unwritten id).symm.trans (exec_fair ran rfl)
  simp only [Option.some.injEq, Prod.mk.injEq] at same
  exact ⟨same.1, same.2.1.symm⟩

theorem exec_findTransactionByKey {key : String} (storable : Storable key)
    (unwritten : l.tx.versions.transactions = []) :
    exec .fair (.findTransactionByKey key) w l =
      some (lookup buildTransaction (w.tables.byKey? key), w,
        l.record (.findTransactionByKey key) (lookup buildTransaction (w.tables.byKey? key))
          l.tx) := by
  simp [exec, Call.run, Call.perform, storing, findTransactionByKey_eq storable,
    Tx.view_byKey? unwritten, World.tables]

theorem findTransactionByKey_answer {key : String} {found : Option Transaction}
    (unwritten : l.tx.versions.transactions = [])
    (ran : exec weather (.findTransactionByKey key) w l = some (.ok found, w', l')) :
    lookup buildTransaction (w.tables.byKey? key) = .ok found ∧ w' = w := by
  obtain ⟨tx, out, -⟩ := exec_eq_some (exec_fair ran rfl)
  obtain ⟨database, replied, rfl⟩ :=
    storing_eq (Storage.findTransactionByKey key) (Option.some.inj out)
  obtain ⟨-, read, rfl, -⟩ := findTransactionByKey_ok replied
  rw [Tx.view_byKey? unwritten] at read
  exact ⟨read, rfl⟩

theorem exec_getEntriesForTransaction (book : Consistent w.tables w.sequences)
    (unwritten : l.tx.versions.entries = []) (id : TransactionId) :
    exec .fair (.getEntriesForTransaction id) w l =
      some (buildEntries (w.tables.entriesOf id.value), w,
        l.record (.getEntriesForTransaction id) (buildEntries (w.tables.entriesOf id.value))
          l.tx) := by
  rw [← book.orderById_entriesOf]
  simp [exec, Call.run, Call.perform, storing, Storage.getEntriesForTransaction,
    Tx.view_entriesOf unwritten, World.tables]

theorem getEntriesForTransaction_answer {id : TransactionId} {entries : List Entry}
    (book : Consistent w.tables w.sequences) (unwritten : l.tx.versions.entries = [])
    (ran : exec weather (.getEntriesForTransaction id) w l = some (.ok entries, w', l')) :
    buildEntries (w.tables.entriesOf id.value) = .ok entries ∧ w' = w := by
  have same := (exec_getEntriesForTransaction book unwritten id).symm.trans (exec_fair ran rfl)
  simp only [Option.some.injEq, Prod.mk.injEq] at same
  exact ⟨same.1, same.2.1.symm⟩

theorem exec_getEntriesForAccount (book : Consistent w.tables w.sequences)
    (unwritten : l.tx.versions.entries = []) (id : AccountId) :
    exec .fair (.getEntriesForAccount id) w l =
      some (buildEntries (w.tables.entries.filter fun e => e.accountId = id.value), w,
        l.record (.getEntriesForAccount id)
          (buildEntries (w.tables.entries.filter fun e => e.accountId = id.value)) l.tx) := by
  rw [← book.orderById_stream]
  simp [exec, Call.run, Call.perform, storing, Storage.getEntriesForAccount,
    Tx.view_entries unwritten, World.tables]

end Reads

end Fides.Ledger
