import Fides.Concurrency.Interleaving
import Fides.Service.Proto
import Fides.Storage.Cache
import Fides.Storage.Postgres

/-! # The calls a handler makes

A handler touches the world only through storage calls and through the balance
cache.  Each of them is one step: a storage call answers from the state committed
when it runs, a cache operation is atomic.  A session is what one handler owns:
its database transaction, and the history of the calls it made with the answers
it got, which no definition of the program reads.
-/

namespace Fides.Service

open Domain Storage Concurrency

inductive Call where
  | begin
  | createAccount (accountType : AccountType) (assetCode : String) (assetScale : Nat)
      (createdAt : Int)
  | getAccount (id : AccountId)
  | getAccountForUpdate (id : AccountId)
  | createTransaction (idempotencyKey : String) (status : TransactionStatus)
      (metadata : JsonValue) (createdAt : Int) (postedAt : Option Int)
  | getTransaction (id : TransactionId)
  | findTransactionByKey (idempotencyKey : String)
  | updateTransactionStatus (id : TransactionId) (status : TransactionStatus)
      (postedAt : Option Int)
  | createEntry (transactionId : TransactionId) (accountId : AccountId) (entryType : EntryType)
      (amount : Amount) (status : EntryStatus) (createdAt : Int)
  | getEntriesForTransaction (transactionId : TransactionId)
  | getEntriesForAccount (accountId : AccountId)
  | updateEntryStatusByTransaction (transactionId : TransactionId) (status : EntryStatus)
  | updateAccountBalance (id : AccountId) (expectedVersion deltaPosted deltaPending : Int)
  | commit
  | rollback
  | cacheGet (id : AccountId)
  | cacheApplyDelta (id : AccountId) (deltaPosted deltaPending : Int)
  | cacheSet (id : AccountId) (posted pending : Int)
  deriving DecidableEq

@[reducible] def Call.Result : Call → Type
  | .begin | .commit => Except StorageError Unit
  | .createAccount .. => Except StorageError AccountId
  | .getAccount _ | .getAccountForUpdate _ => Except StorageError (Option Account)
  | .createTransaction .. => Except StorageError TransactionId
  | .getTransaction _ | .findTransactionByKey _ => Except StorageError (Option Transaction)
  | .updateTransactionStatus .. | .updateAccountBalance .. => Except StorageError Unit
  | .createEntry .. => Except StorageError EntryId
  | .getEntriesForTransaction _ | .getEntriesForAccount _ => Except StorageError (List Entry)
  | .updateEntryStatusByTransaction .. => Except StorageError Nat
  | .cacheGet _ => Option AccountBalance
  | .rollback | .cacheApplyDelta .. | .cacheSet .. => Unit

@[reducible] def calls : Interface := ⟨Call, Call.Result⟩

structure World where
  database : Database
  cache : BalanceCache

/-- The committed tables. -/
def World.tables (w : World) : Tables := w.database.tables

def World.sequences (w : World) : Sequences := w.database.sequences

/-- The empty ledger, served by a fresh process. -/
def World.initial : World := ⟨⟨.empty, ⟨0, 0, 0⟩⟩, .new⟩

structure Answered where
  call : Call
  result : call.Result

structure Session where
  request : Request
  tx : Tx
  history : List Answered

/-- The locks a call needs: those of the rows and keys it is about to lock, update
    or insert, and the row a new entry refers to. -/
def Call.needs (view : Tables) : Call → List Resource
  | .getAccountForUpdate id => if (view.account? id.value).isSome then [.account id.value] else []
  | .createTransaction key .. => match varchar 64 key with
      | .ok key => [.key key]
      | .error _ => []
  | .updateTransactionStatus id .. => [.transaction id.value]
  | .createEntry _ accountId .. => [.account accountId.value]
  | .updateEntryStatusByTransaction id _ => (view.entriesOf id.value).map fun row => .entry row.id
  | .updateAccountBalance id .. => [.account id.value]
  | _ => []

/-- A call waits in the database while another session holds a lock it needs and does not have.
    (That `begin` may wait for one of the connections of the pool is not modelled.) -/
def waits (c : Call) (w : World) (own other : Session) : Bool :=
  (c.needs (own.tx.view w.database)).any fun resource =>
    decide (resource ∉ own.tx.held) && decide (resource ∈ other.tx.held)

def storing {α : Type} (call : Database → Tx → Reply α) (w : World) (tx : Tx) :
    Except StorageError α × World × Tx :=
  match call w.database tx with
  | (answer, database, tx) => (answer, { w with database := database }, tx)

/-- What a call does when the database does not fail. -/
def Call.perform : (c : Call) → World → Tx → c.Result × World × Tx
  | .begin, w, tx => (.ok (), w, tx)
  | .createAccount accountType assetCode assetScale createdAt, w, tx =>
      storing (Storage.createAccount accountType assetCode assetScale createdAt) w tx
  | .getAccount id, w, tx => storing (Storage.getAccount id) w tx
  | .getAccountForUpdate id, w, tx => storing (Storage.getAccountForUpdate id) w tx
  | .createTransaction key status metadata createdAt postedAt, w, tx =>
      storing (Storage.createTransaction key status metadata createdAt postedAt) w tx
  | .getTransaction id, w, tx => storing (Storage.getTransaction id) w tx
  | .findTransactionByKey key, w, tx => storing (Storage.findTransactionByKey key) w tx
  | .updateTransactionStatus id status postedAt, w, tx =>
      storing (Storage.updateTransactionStatus id status postedAt) w tx
  | .createEntry transactionId accountId entryType amount status createdAt, w, tx =>
      storing (Storage.createEntry transactionId accountId entryType amount status createdAt) w tx
  | .getEntriesForTransaction id, w, tx => storing (Storage.getEntriesForTransaction id) w tx
  | .getEntriesForAccount id, w, tx => storing (Storage.getEntriesForAccount id) w tx
  | .updateEntryStatusByTransaction id status, w, tx =>
      storing (Storage.updateEntryStatusByTransaction id status) w tx
  | .updateAccountBalance id version deltaPosted deltaPending, w, tx =>
      storing (Storage.updateAccountBalance id version deltaPosted deltaPending) w tx
  | .commit, w, tx =>
      match Storage.commit w.database tx with
      | (database, tx) => (.ok (), { w with database := database }, tx)
  | .rollback, w, _ => ((), w, .idle)
  | .cacheGet id, w, tx => (w.cache.get id, w, tx)
  | .cacheApplyDelta id deltaPosted deltaPending, w, tx =>
      ((), { w with cache := w.cache.applyDelta id deltaPosted deltaPending }, tx)
  | .cacheSet id posted pending, w, tx => ((), { w with cache := w.cache.set id posted pending }, tx)

/-- The answer of a storage call that the database fails, and the transaction
    after it; a commit that reports failure has not taken effect. -/
def Call.failed (message : String) (w : World) (tx : Tx) :
    (c : Call) → Option (c.Result × World × Tx)
  | .commit => some (.error (.database (.other message)), w, .idle)
  | .rollback | .cacheGet _ | .cacheApplyDelta .. | .cacheSet .. => none
  | .begin | .createAccount .. | .getAccount _ | .getAccountForUpdate _ | .createTransaction ..
  | .getTransaction _ | .findTransactionByKey _ | .updateTransactionStatus .. | .createEntry ..
  | .getEntriesForTransaction _ | .getEntriesForAccount _ | .updateEntryStatusByTransaction ..
  | .updateAccountBalance .. => some (.error (.database (.other message)), w, tx)

/-- What the environment decides about a call. -/
inductive Weather where
  | fair
  | fault (message : String)

def Call.run (weather : Weather) (c : Call) (w : World) (tx : Tx) :
    Option (c.Result × World × Tx) :=
  match weather with
  | .fair => some (c.perform w tx)
  | .fault message => c.failed message w tx

def Session.record (s : Session) (c : Call) (answer : c.Result) (tx : Tx) : Session :=
  { s with tx := tx, history := s.history ++ [⟨c, answer⟩] }

def exec (weather : Weather) (c : Call) (w : World) (s : Session) :
    Option (c.Result × World × Session) :=
  match c.run weather w s.tx with
  | some (answer, w, tx) => some (answer, w, s.record c answer tx)
  | none => none

end Fides.Service
