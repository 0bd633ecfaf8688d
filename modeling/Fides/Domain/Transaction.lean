import Fides.Domain.Account

/-! # Transactions and entries -/

namespace Fides.Domain

/-- A JSON value of the metadata column, by the compact text that is sent to the database; the
    ledger stores it and never looks inside. -/
structure JsonValue where
  text : String
  deriving DecidableEq, Repr

structure TransactionId where
  value : Int
  deriving DecidableEq, Repr

inductive TransactionStatus where
  /-- Authorized, awaiting capture or void. -/
  | pending
  /-- Captured, finalized. -/
  | posted
  /-- Cancelled. -/
  | voided
  /-- Rejected. -/
  | failed
  deriving DecidableEq, Repr

inductive TransactionError where
  | invalidId (id : Int)
  | emptyIdempotencyKey
  | invalidTimestamp (timestamp : Int)
  | invalidPostedAt (status : TransactionStatus) (postedAt : Int)
  deriving DecidableEq, Repr

def TransactionId.new (id : Int) : Except TransactionError TransactionId :=
  if id ≤ 0 then .error (.invalidId id) else .ok ⟨id⟩

/-- `postedAt` is 0 as long as the transaction is not posted. -/
structure Transaction where
  id : TransactionId
  idempotencyKey : String
  status : TransactionStatus
  metadata : JsonValue
  createdAt : Int
  postedAt : Int
  idempotencyKey_ne : idempotencyKey ≠ ""
  createdAt_pos : 0 < createdAt
  postedAt_pos : status = .posted → 0 < postedAt
  postedAt_zero : status ≠ .posted → postedAt = 0
  deriving Repr

def Transaction.new (id : TransactionId) (idempotencyKey : String) (status : TransactionStatus)
    (metadata : JsonValue) (createdAt postedAt : Int) : Except TransactionError Transaction :=
  if key : idempotencyKey = "" then .error .emptyIdempotencyKey
  else if early : createdAt ≤ 0 then .error (.invalidTimestamp createdAt)
  else if unposted : status = .posted ∧ postedAt ≤ 0 then .error (.invalidPostedAt status postedAt)
  else if stamped : status ≠ .posted ∧ postedAt ≠ 0 then .error (.invalidPostedAt status postedAt)
  else .ok
    { id, idempotencyKey, status, metadata, createdAt, postedAt
      idempotencyKey_ne := key
      createdAt_pos := by omega
      postedAt_pos := fun posted => by
        by_contra late
        exact unposted ⟨posted, by omega⟩
      postedAt_zero := fun other => by
        by_contra set
        exact stamped ⟨other, set⟩ }

def TransactionStatus.debug : TransactionStatus → String
  | .pending => "Pending"
  | .posted => "Posted"
  | .voided => "Voided"
  | .failed => "Failed"

def TransactionError.toString : TransactionError → String
  | .invalidId id => "invalid transaction id: " ++ ToString.toString id
  | .emptyIdempotencyKey => "idempotency key cannot be empty"
  | .invalidTimestamp t => "invalid timestamp: " ++ ToString.toString t
  | .invalidPostedAt status postedAt =>
      "invalid posted_at " ++ ToString.toString postedAt ++ " for status " ++ status.debug

structure EntryId where
  value : Int
  deriving DecidableEq, Repr

inductive EntryType where
  | debit
  | credit
  deriving DecidableEq, Repr

inductive EntryStatus where
  | pending
  | posted
  | voided
  deriving DecidableEq, Repr

structure Entry where
  id : EntryId
  transactionId : TransactionId
  accountId : AccountId
  entryType : EntryType
  amount : Amount
  status : EntryStatus
  createdAt : Int
  amount_ne : amount.value ≠ 0
  createdAt_pos : 0 < createdAt
  deriving Repr

inductive EntryError where
  | invalidId (id : Int)
  | invalidTimestamp (timestamp : Int)
  | zeroAmount
  deriving DecidableEq, Repr

def Entry.new (id : EntryId) (transactionId : TransactionId) (accountId : AccountId)
    (entryType : EntryType) (amount : Amount) (status : EntryStatus) (createdAt : Int) :
    Except EntryError Entry :=
  if zero : amount.value = 0 then .error .zeroAmount
  else if early : createdAt ≤ 0 then .error (.invalidTimestamp createdAt)
  else .ok
    { id, transactionId, accountId, entryType, amount, status, createdAt
      amount_ne := zero
      createdAt_pos := by omega }

def EntryError.toString : EntryError → String
  | .invalidId id => "invalid entry id: " ++ ToString.toString id
  | .invalidTimestamp t => "invalid timestamp: " ++ ToString.toString t
  | .zeroAmount => "entry amount cannot be zero"

theorem TransactionId.new_eq_ok {value : Int} {id : TransactionId}
    (built : TransactionId.new value = .ok id) : id = ⟨value⟩ := by
  unfold TransactionId.new at built
  split at built <;> cases built
  rfl

theorem Transaction.new_eq_ok {id key status metadata createdAt postedAt}
    {transaction : Transaction}
    (built : Transaction.new id key status metadata createdAt postedAt = .ok transaction) :
    transaction.id = id ∧ transaction.idempotencyKey = key ∧ transaction.status = status ∧
      transaction.metadata = metadata ∧ transaction.createdAt = createdAt ∧
      transaction.postedAt = postedAt := by
  unfold Transaction.new at built
  split at built
  · cases built
  split at built
  · cases built
  split at built
  · cases built
  split at built
  · cases built
  cases built
  exact ⟨rfl, rfl, rfl, rfl, rfl, rfl⟩

/-- What `Transaction.new` demands. -/
theorem Transaction.new_ok (id metadata) (status : TransactionStatus) (postedAt : Int)
    {key : String} {createdAt : Int} (filled : key ≠ "") (created : 0 < createdAt)
    (posted : status = .posted → 0 < postedAt) (unposted : status ≠ .posted → postedAt = 0) :
    ∃ transaction, Transaction.new id key status metadata createdAt postedAt = .ok transaction := by
  have late : ¬ createdAt ≤ 0 := by omega
  have stamped : ¬ (status = .posted ∧ postedAt ≤ 0) := by
    rintro ⟨same, early⟩
    have := posted same
    omega
  have blank : ¬ (status ≠ .posted ∧ postedAt ≠ 0) := fun ⟨other, set⟩ => set (unposted other)
  exact ⟨_, by rw [Transaction.new, dif_neg filled, dif_neg late, dif_neg stamped, dif_neg blank]⟩

theorem Entry.new_eq_ok {id transactionId accountId entryType amount status createdAt}
    {entry : Entry}
    (built : Entry.new id transactionId accountId entryType amount status createdAt = .ok entry) :
    entry.id = id ∧ entry.transactionId = transactionId ∧ entry.accountId = accountId ∧
      entry.entryType = entryType ∧ entry.amount = amount ∧ entry.status = status ∧
      entry.createdAt = createdAt := by
  unfold Entry.new at built
  split at built
  · cases built
  split at built
  · cases built
  cases built
  exact ⟨rfl, rfl, rfl, rfl, rfl, rfl, rfl⟩

/-- What `Entry.new` demands. -/
theorem Entry.new_ok (id transactionId accountId entryType) {amount : Amount}
    (status : EntryStatus) {createdAt : Int} (positive : 0 < amount.value)
    (created : 0 < createdAt) :
    ∃ entry, Entry.new id transactionId accountId entryType amount status createdAt = .ok entry := by
  have nonzero : ¬ amount.value = 0 := by omega
  have late : ¬ createdAt ≤ 0 := by omega
  exact ⟨_, by rw [Entry.new, dif_neg nonzero, dif_neg late]⟩

end Fides.Domain
