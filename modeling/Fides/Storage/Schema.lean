import Fides.Domain.Validation
import Fides.Relational.Table

/-! # The schema and the row codecs

Rows carry the raw columns; `buildAccount`, `buildTransaction` and `buildEntry`
decode them through the domain constructors, which demand more than the
constraints of the schema do.
-/

namespace Fides.Storage

open Domain FixedWidth Relational

structure AccountRow where
  id : Int
  accountType : Int
  assetCode : String
  assetScale : Int
  version : Int
  postedBalance : Int
  pendingBalance : Int
  createdAt : Int
  deriving DecidableEq, Repr

structure TransactionRow where
  id : Int
  idempotencyKey : String
  status : Int
  metadata : JsonValue
  createdAt : Int
  postedAt : Option Int
  deriving DecidableEq, Repr

structure EntryRow where
  id : Int
  transactionId : Int
  accountId : Int
  entryType : Int
  amount : Int
  status : Int
  createdAt : Int
  deriving DecidableEq, Repr

instance : Keyed AccountRow := ⟨AccountRow.id⟩
instance : Keyed TransactionRow := ⟨TransactionRow.id⟩
instance : Keyed EntryRow := ⟨EntryRow.id⟩

/-- The contents of the three tables, or the row versions of a transaction. -/
structure Tables where
  accounts : List AccountRow
  transactions : List TransactionRow
  entries : List EntryRow
  deriving DecidableEq, Repr

namespace Tables

def empty : Tables := ⟨[], [], []⟩

def account? (tables : Tables) (id : Int) : Option AccountRow := find tables.accounts id

def transaction? (tables : Tables) (id : Int) : Option TransactionRow :=
  find tables.transactions id

def byKey? (tables : Tables) (key : String) : Option TransactionRow :=
  tables.transactions.find? fun row => row.idempotencyKey = key

/-- The rows that carry the transaction id, in table order. -/
def entriesOf (tables : Tables) (id : Int) : List EntryRow :=
  tables.entries.filter fun row => row.transactionId = id

def merge (tables versions : Tables) : Tables where
  accounts := Relational.merge tables.accounts versions.accounts
  transactions := Relational.merge tables.transactions versions.transactions
  entries := Relational.merge tables.entries versions.entries

end Tables

/-- The last value each id sequence has handed out. -/
structure Sequences where
  accounts : Int
  transactions : Int
  entries : Int
  deriving DecidableEq, Repr

structure Database where
  tables : Tables
  sequences : Sequences
  deriving DecidableEq, Repr

/-- The errors a statement raises. -/
inductive SqlError where
  | uniqueViolation (detail : String)
  | checkViolation (constraint : String)
  | foreignKeyViolation (constraint : String)
  | outOfRange (type : String)
  | valueTooLong (limit : Nat)
  | invalidByteSequence
  | unsupportedEscape
  | sequenceExhausted
  | other (message : String)
  deriving DecidableEq, Repr

def SqlError.message : SqlError → String
  | .uniqueViolation _ => "duplicate key value violates unique constraint"
  | .checkViolation constraint => "new row violates check constraint " ++ constraint
  | .foreignKeyViolation constraint => "insert violates foreign key constraint " ++ constraint
  | .outOfRange type => type ++ " out of range"
  | .valueTooLong limit =>
      "value too long for type character varying(" ++ ToString.toString limit ++ ")"
  | .invalidByteSequence => "invalid byte sequence for encoding \"UTF8\": 0x00"
  | .unsupportedEscape => "unsupported Unicode escape sequence"
  | .sequenceExhausted => "nextval: reached maximum value of sequence"
  | .other message => message

/-- The driver names the database as the origin of the errors that statements raise there. -/
def SqlError.toString (e : SqlError) : String :=
  match e with
  | .other message => message
  | _ => "error returned from database: " ++ e.message

inductive StorageError where
  | database (e : SqlError)
  | dataCorruption (message : String)
  | versionConflict (entity : String) (id expected actual : Int)
  | duplicateKey (key : String)
  deriving DecidableEq, Repr

/-- The text after the first occurrence of `pattern`. -/
def afterFirst (pattern : List Char) : List Char → Option (List Char)
  | [] => if pattern = [] then some [] else none
  | c :: text =>
      if pattern.isPrefixOf (c :: text) then some ((c :: text).drop pattern.length)
      else afterFirst pattern text

/-- The duplicate value in a detail text `Key (column)=(value) already exists.` -/
def duplicateValue (detail : String) : Option String :=
  match afterFirst ")=(".toList detail.toList with
  | none => none
  | some rest => if ')' ∈ rest then some (String.ofList (rest.takeWhile (· ≠ ')'))) else none

def StorageError.ofSqlx : SqlError → StorageError
  | .uniqueViolation detail => .duplicateKey ((duplicateValue detail).getD "unknown")
  | e => .database e

/-- Storing a text in a `VARCHAR(n)` column: an over-length text is refused,
    unless everything beyond the limit is spaces, which are cut off. -/
def varchar (limit : Nat) (text : String) : Except SqlError String :=
  if text.toList.any (· = Char.ofNat 0) then .error .invalidByteSequence
  else if text.length ≤ limit then .ok text
  else if (text.toList.drop limit).all (· = ' ') then .ok (String.ofList (text.toList.take limit))
  else .error (.valueTooLong limit)

/-- The text of a JSON value has the escape of a NUL character in one of its strings.  A backslash
    starts an escape wherever it stands, unless it is itself the second half of one. -/
def escapesNul : List Char → Bool
  | '\\' :: 'u' :: '0' :: '0' :: '0' :: '0' :: _ => true
  | '\\' :: _ :: text => escapesNul text
  | _ :: text => escapesNul text
  | [] => false

/-- Storing a value in a `JSONB` column, which has no NUL characters. -/
def jsonb (value : JsonValue) : Except SqlError JsonValue :=
  if escapesNul value.text.toList then .error .unsupportedEscape else .ok value

def nextval (last : Int) : Except SqlError Int :=
  if last < hi 64 then .ok (last + 1) else .error .sequenceExhausted

def accountTypeToI16 : AccountType → Int
  | .asset => 1
  | .liability => 2
  | .equity => 3
  | .revenue => 4
  | .expense => 5

def i16ToAccountType (i : Int) : Except StorageError AccountType :=
  if i = 1 then .ok .asset
  else if i = 2 then .ok .liability
  else if i = 3 then .ok .equity
  else if i = 4 then .ok .revenue
  else if i = 5 then .ok .expense
  else .error (.dataCorruption ("invalid account_type: " ++ toString i))

def transactionStatusToI16 : TransactionStatus → Int
  | .pending => 1
  | .posted => 2
  | .voided => 3
  | .failed => 4

def i16ToTransactionStatus (i : Int) : Except StorageError TransactionStatus :=
  if i = 1 then .ok .pending
  else if i = 2 then .ok .posted
  else if i = 3 then .ok .voided
  else if i = 4 then .ok .failed
  else .error (.dataCorruption ("invalid transaction_status: " ++ toString i))

def entryTypeToI16 : EntryType → Int
  | .debit => 1
  | .credit => 2

def i16ToEntryType (i : Int) : Except StorageError EntryType :=
  if i = 1 then .ok .debit
  else if i = 2 then .ok .credit
  else .error (.dataCorruption ("invalid entry_type: " ++ toString i))

def entryStatusToI16 : EntryStatus → Int
  | .pending => 1
  | .posted => 2
  | .voided => 3

def i16ToEntryStatus (i : Int) : Except StorageError EntryStatus :=
  if i = 1 then .ok .pending
  else if i = 2 then .ok .posted
  else if i = 3 then .ok .voided
  else .error (.dataCorruption ("invalid entry_status: " ++ toString i))

def buildAccount (row : AccountRow) : Except StorageError Account :=
  match i16ToAccountType row.accountType with
  | .error e => .error e
  | .ok accountType =>
      match Account.new ⟨row.id⟩ accountType row.assetCode (row.assetScale % 256).toNat
          row.version row.createdAt with
      | .ok account => .ok account
      | .error e => .error (.dataCorruption ("invalid account data: " ++ e.toString))

def buildTransaction (row : TransactionRow) : Except StorageError Transaction :=
  match i16ToTransactionStatus row.status with
  | .error e => .error e
  | .ok status =>
      match Transaction.new ⟨row.id⟩ row.idempotencyKey status row.metadata row.createdAt
          (row.postedAt.getD 0) with
      | .ok transaction => .ok transaction
      | .error e => .error (.dataCorruption ("invalid transaction data: " ++ e.toString))

def buildEntry (row : EntryRow) : Except StorageError Entry :=
  match i16ToEntryType row.entryType, i16ToEntryStatus row.status with
  | .error e, _ => .error e
  | .ok _, .error e => .error e
  | .ok entryType, .ok status =>
      match Entry.new ⟨row.id⟩ ⟨row.transactionId⟩ ⟨row.accountId⟩ entryType ⟨row.amount⟩ status
          row.createdAt with
      | .ok entry => .ok entry
      | .error e => .error (.dataCorruption ("invalid entry data: " ++ e.toString))

def AccountRow.check (row : AccountRow) : Except SqlError AccountRow :=
  if ¬ (1 ≤ row.accountType ∧ row.accountType ≤ 5) then .error (.checkViolation "chk_account_type")
  else if ¬ (0 ≤ row.assetScale ∧ row.assetScale ≤ 18) then
    .error (.checkViolation "chk_asset_scale")
  else if ¬ 0 < row.createdAt then .error (.checkViolation "chk_created_at")
  else if ¬ 0 ≤ row.version then .error (.checkViolation "chk_version")
  else .ok row

def TransactionRow.check (row : TransactionRow) : Except SqlError TransactionRow :=
  if ¬ 0 < row.createdAt then .error (.checkViolation "chk_created_at")
  else if ¬ ∀ p ∈ row.postedAt, 0 < p then .error (.checkViolation "chk_posted_at")
  else if ¬ (1 ≤ row.status ∧ row.status ≤ 4) then .error (.checkViolation "chk_status")
  else .ok row

def EntryRow.check (row : EntryRow) : Except SqlError EntryRow :=
  if ¬ 0 < row.amount then .error (.checkViolation "chk_amount")
  else if ¬ 0 < row.createdAt then .error (.checkViolation "chk_created_at")
  else if ¬ (1 ≤ row.entryType ∧ row.entryType ≤ 2) then .error (.checkViolation "chk_entry_type")
  else if ¬ (1 ≤ row.status ∧ row.status ≤ 3) then .error (.checkViolation "chk_status")
  else .ok row

theorem AccountRow.check_ok {row checked : AccountRow} (ok : row.check = .ok checked) :
    checked = row ∧ (1 ≤ row.accountType ∧ row.accountType ≤ 5) ∧
      (0 ≤ row.assetScale ∧ row.assetScale ≤ 18) ∧ 0 < row.createdAt ∧ 0 ≤ row.version := by
  unfold AccountRow.check at ok
  repeat (split at ok; · cases ok)
  cases ok
  simp_all

theorem TransactionRow.check_ok {row checked : TransactionRow} (ok : row.check = .ok checked) :
    checked = row ∧ 0 < row.createdAt ∧ (∀ p ∈ row.postedAt, 0 < p) ∧
      (1 ≤ row.status ∧ row.status ≤ 4) := by
  unfold TransactionRow.check at ok
  repeat (split at ok; · cases ok)
  cases ok
  simp_all

theorem EntryRow.check_ok {row checked : EntryRow} (ok : row.check = .ok checked) :
    checked = row ∧ 0 < row.amount ∧ 0 < row.createdAt ∧
      (1 ≤ row.entryType ∧ row.entryType ≤ 2) ∧ (1 ≤ row.status ∧ row.status ≤ 3) := by
  unfold EntryRow.check at ok
  repeat (split at ok; · cases ok)
  cases ok
  simp_all

end Fides.Storage
