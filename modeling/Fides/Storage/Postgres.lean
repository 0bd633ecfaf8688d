import Fides.Storage.Schema
import Mathlib.Data.List.Sort

/-! # The storage calls

Each function is one storage call of `PostgresStorage` run by an open database
transaction: it sees the tables as they are committed when it runs together with
the transaction's own row versions, and it leaves new row versions and row locks
in the transaction.  A statement that cannot have its parameters is refused before it
does anything; the others draw ids from sequences, which no rollback takes back.
-/

namespace Fides.Storage

open Domain FixedWidth Relational

/-- What a transaction can hold until it ends: the rows it has locked, inserted
    or updated, and the idempotency keys it has inserted. -/
inductive Resource where
  | account (id : Int)
  | transaction (id : Int)
  | entry (id : Int)
  | key (key : String)
  deriving DecidableEq, Repr

/-- An open database transaction: its uncommitted row versions and its locks. -/
structure Tx where
  versions : Tables
  held : List Resource
  deriving DecidableEq, Repr

namespace Tx

/-- The transaction before its first statement and after it has ended. -/
def idle : Tx := ⟨.empty, []⟩

/-- What a statement of the transaction sees. -/
def view (tx : Tx) (db : Database) : Tables := db.tables.merge tx.versions

def lock (tx : Tx) (resources : List Resource) : Tx := { tx with held := tx.held ++ resources }

def writeAccount (tx : Tx) (row : AccountRow) : Tx :=
  { versions := { tx.versions with accounts := tx.versions.accounts ++ [row] }
    held := tx.held ++ [.account row.id] }

def insertTransaction (tx : Tx) (row : TransactionRow) : Tx :=
  { versions := { tx.versions with transactions := tx.versions.transactions ++ [row] }
    held := tx.held ++ [.transaction row.id, .key row.idempotencyKey] }

def updateTransaction (tx : Tx) (row : TransactionRow) : Tx :=
  { versions := { tx.versions with transactions := tx.versions.transactions ++ [row] }
    held := tx.held ++ [.transaction row.id] }

def writeEntries (tx : Tx) (rows : List EntryRow) : Tx :=
  { versions := { tx.versions with entries := tx.versions.entries ++ rows }
    held := tx.held ++ rows.map fun row => .entry row.id }

end Tx

/-- The answer to a storage call with the database and the transaction after it. -/
abbrev Reply (α : Type) := Except StorageError α × Database × Tx

def sqlFailure {α : Type} (e : SqlError) (db : Database) (tx : Tx) : Reply α :=
  (.error (.ofSqlx e), db, tx)

def createAccount (accountType : AccountType) (assetCode : String) (assetScale : Nat)
    (createdAt : Int) (db : Database) (tx : Tx) : Reply AccountId :=
  match varchar 16 assetCode with
  | .error e => sqlFailure e db tx
  | .ok code =>
      match nextval db.sequences.accounts with
      | .error e => sqlFailure e db tx
      | .ok id =>
          let db := { db with sequences := { db.sequences with accounts := id } }
          let row : AccountRow :=
            { id, accountType := accountTypeToI16 accountType, assetCode := code,
              assetScale := assetScale, version := 0, postedBalance := 0, pendingBalance := 0,
              createdAt }
          match row.check with
          | .error e => sqlFailure e db tx
          | .ok row => (.ok ⟨row.id⟩, db, tx.writeAccount row)

def getAccount (id : AccountId) (db : Database) (tx : Tx) : Reply (Option Account) :=
  match (tx.view db).account? id.value with
  | none => (.ok none, db, tx)
  | some row => ((buildAccount row).map some, db, tx)

/-- `SELECT ... FOR UPDATE`: the row is locked before it is decoded. -/
def getAccountForUpdate (id : AccountId) (db : Database) (tx : Tx) : Reply (Option Account) :=
  match (tx.view db).account? id.value with
  | none => (.ok none, db, tx)
  | some row => ((buildAccount row).map some, db, tx.lock [.account id.value])

/-- The detail text of a violation of the unique constraint on the key. -/
def duplicateDetail (key : String) : String :=
  "Key (idempotency_key)=(" ++ key ++ ") already exists."

def createTransaction (idempotencyKey : String) (status : TransactionStatus)
    (metadata : JsonValue) (createdAt : Int) (postedAt : Option Int) (db : Database) (tx : Tx) :
    Reply TransactionId :=
  if idempotencyKey.toList.any (· = Char.ofNat 0) then sqlFailure .invalidByteSequence db tx
  else match jsonb metadata, varchar 64 idempotencyKey with
  | .error e, _ => sqlFailure e db tx
  | .ok _, .error e => sqlFailure e db tx
  | .ok metadata, .ok key =>
      match nextval db.sequences.transactions with
      | .error e => sqlFailure e db tx
      | .ok id =>
          let db := { db with sequences := { db.sequences with transactions := id } }
          let row : TransactionRow :=
            { id, idempotencyKey := key, status := transactionStatusToI16 status, metadata,
              createdAt, postedAt }
          match row.check with
          | .error e => sqlFailure e db tx
          | .ok row =>
              if ((tx.view db).byKey? row.idempotencyKey).isSome then
                sqlFailure (.uniqueViolation (duplicateDetail row.idempotencyKey)) db tx
              else (.ok ⟨row.id⟩, db, tx.insertTransaction row)

def getTransaction (id : TransactionId) (db : Database) (tx : Tx) : Reply (Option Transaction) :=
  match (tx.view db).transaction? id.value with
  | none => (.ok none, db, tx)
  | some row => ((buildTransaction row).map some, db, tx)

def findTransactionByKey (idempotencyKey : String) (db : Database) (tx : Tx) :
    Reply (Option Transaction) :=
  if idempotencyKey.toList.any (· = Char.ofNat 0) then sqlFailure .invalidByteSequence db tx
  else match (tx.view db).byKey? idempotencyKey with
    | none => (.ok none, db, tx)
    | some row => ((buildTransaction row).map some, db, tx)

def updateTransactionStatus (id : TransactionId) (status : TransactionStatus)
    (postedAt : Option Int) (db : Database) (tx : Tx) : Reply Unit :=
  match (tx.view db).transaction? id.value with
  | none =>
      (.error (.dataCorruption
        ("transaction " ++ toString id.value ++ " not found during status update")), db, tx)
  | some row =>
      match { row with status := transactionStatusToI16 status, postedAt := postedAt }.check with
      | .error e => sqlFailure e db tx
      | .ok row => (.ok (), db, tx.updateTransaction row)

def createEntry (transactionId : TransactionId) (accountId : AccountId) (entryType : EntryType)
    (amount : Amount) (status : EntryStatus) (createdAt : Int) (db : Database) (tx : Tx) :
    Reply EntryId :=
  match nextval db.sequences.entries with
  | .error e => sqlFailure e db tx
  | .ok id =>
      let db := { db with sequences := { db.sequences with entries := id } }
      let row : EntryRow :=
        { id, transactionId := transactionId.value, accountId := accountId.value,
          entryType := entryTypeToI16 entryType, amount := amount.value,
          status := entryStatusToI16 status, createdAt }
      match row.check with
      | .error e => sqlFailure e db tx
      | .ok row =>
          if ((tx.view db).transaction? row.transactionId).isNone then
            sqlFailure (.foreignKeyViolation "entries_transaction_id_fkey") db tx
          else if ((tx.view db).account? row.accountId).isNone then
            sqlFailure (.foreignKeyViolation "entries_account_id_fkey") db tx
          else (.ok ⟨row.id⟩, db, tx.writeEntries [row])

/-- `ORDER BY id`. -/
def orderById (rows : List EntryRow) : List EntryRow :=
  rows.insertionSort fun a b => a.id ≤ b.id

def buildEntries : List EntryRow → Except StorageError (List Entry)
  | [] => .ok []
  | row :: rows => match buildEntry row, buildEntries rows with
      | .error e, _ => .error e
      | .ok _, .error e => .error e
      | .ok entry, .ok entries => .ok (entry :: entries)

def getEntriesForTransaction (transactionId : TransactionId) (db : Database) (tx : Tx) :
    Reply (List Entry) :=
  (buildEntries (orderById ((tx.view db).entriesOf transactionId.value)), db, tx)

def getEntriesForAccount (accountId : AccountId) (db : Database) (tx : Tx) : Reply (List Entry) :=
  (buildEntries (orderById
    ((tx.view db).entries.filter fun row => row.accountId = accountId.value)), db, tx)

/-- Returns the number of rows affected. -/
def updateEntryStatusByTransaction (transactionId : TransactionId) (status : EntryStatus)
    (db : Database) (tx : Tx) : Reply Nat :=
  let rows := ((tx.view db).entriesOf transactionId.value).map fun row =>
    { row with status := entryStatusToI16 status }
  (.ok rows.length, db, tx.writeEntries rows)

/-- `delta_posted` and `delta_pending` are added to the row whose version is the
    expected one; without such a row the current version is read for the error. -/
def updateAccountBalance (id : AccountId) (expectedVersion deltaPosted deltaPending : Int)
    (db : Database) (tx : Tx) : Reply Unit :=
  match (tx.view db).account? id.value with
  | none =>
      (.error (.dataCorruption
        ("account " ++ toString id.value ++ " not found during balance update")), db, tx)
  | some row =>
      if row.version = wrap 32 expectedVersion then
        if ¬ Fits 64 (row.postedBalance + deltaPosted) then sqlFailure (.outOfRange "bigint") db tx
        else if ¬ Fits 64 (row.pendingBalance + deltaPending) then
          sqlFailure (.outOfRange "bigint") db tx
        else if ¬ Fits 32 (row.version + 1) then sqlFailure (.outOfRange "integer") db tx
        else
          (.ok (), db, tx.writeAccount
            { row with postedBalance := row.postedBalance + deltaPosted,
                       pendingBalance := row.pendingBalance + deltaPending,
                       version := row.version + 1 })
      else (.error (.versionConflict "account" id.value expectedVersion row.version), db, tx)

def loadAllBalances (db : Database) : List (AccountId × Int × Int) :=
  db.tables.accounts.map fun row => (⟨row.id⟩, row.postedBalance, row.pendingBalance)

/-- The row versions become visible to everyone and the locks are released. -/
def commit (db : Database) (tx : Tx) : Database × Tx :=
  ({ db with tables := db.tables.merge tx.versions }, .idle)

end Fides.Storage
