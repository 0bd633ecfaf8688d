import Fides.Storage.Schema

/-! # Requests, responses and service errors -/

namespace Fides.Service

open Domain Storage

/-- The metadata text of a request with what the JSON parser makes of it. -/
structure MetadataText where
  text : String
  parsed : Except String JsonValue
  deriving DecidableEq

structure ProtoTransferLeg where
  accountId : Int
  entryType : Int
  amount : Int
  deriving DecidableEq, Repr

structure CreateAccountRequest where
  accountType : Int
  assetCode : String
  assetScale : Int
  deriving DecidableEq, Repr

structure AuthorizeRequest where
  idempotencyKey : String
  legs : List ProtoTransferLeg
  metadata : MetadataText
  deriving DecidableEq

/-- A request with the clock reading its handler takes, where it takes one. -/
inductive Request where
  | createAccount (req : CreateAccountRequest) (now : Int)
  | getAccount (accountId : Int)
  | getBalance (accountId : Int)
  | authorize (req : AuthorizeRequest) (now : Int)
  | capture (transactionId : Int) (now : Int)
  | void (transactionId : Int)
  | getEntries (accountId : Int)
  deriving DecidableEq

structure ProtoAccount where
  id : Int
  accountType : Int
  normalBalance : Int
  assetCode : String
  assetScale : Int
  version : Int
  createdAt : Int
  deriving DecidableEq, Repr

structure ProtoEntry where
  id : Int
  transactionId : Int
  accountId : Int
  entryType : Int
  amount : Int
  status : Int
  createdAt : Int
  deriving DecidableEq, Repr

structure ProtoTransaction where
  id : Int
  idempotencyKey : String
  status : Int
  createdAt : Int
  postedAt : Int
  deriving DecidableEq, Repr

inductive Response where
  | account (account : ProtoAccount)
  | balance (posted pending available : Int)
  | authorized (transaction : ProtoTransaction) (entries : List ProtoEntry)
  | settled (transaction : ProtoTransaction)
  | entries (entries : List ProtoEntry)
  deriving DecidableEq, Repr

inductive ServiceError where
  | accountNotFound (accountId : Int)
  | transactionNotFound (transactionId : Int)
  | insufficientFunds (accountId available requested : Int)
  | invalidTransactionState (transactionId : Int) (current : TransactionStatus) (attempted : String)
  | duplicateTransaction (idempotencyKey : String)
  | unbalancedTransaction (totalDebits totalCredits : Int)
  | invalidArgument (message : String)
  | versionConflict (entity : String) (id : Int)
  | internal (message : String)
  deriving DecidableEq, Repr

/-- How a handler ends without a response: an error status, or a panic. -/
inductive Failure where
  | error (e : ServiceError)
  | panic (message : String)
  deriving DecidableEq, Repr

namespace ServiceError

def ofStorage : StorageError → ServiceError
  | .versionConflict entity id _ _ => .versionConflict entity id
  | .duplicateKey key => .duplicateTransaction key
  | .dataCorruption message => .internal message
  | .database e => .internal e.toString

def ofValidation : ValidationError → ServiceError
  | .insufficientLegs count => .invalidArgument (ValidationError.insufficientLegs count).toString
  | .unbalancedTransaction debits credits => .unbalancedTransaction debits credits
  | .sumOverflow => .internal ValidationError.sumOverflow.toString
  | .balanceOverflow => .internal ValidationError.balanceOverflow.toString

def ofTransferLeg (e : TransferLegError) : ServiceError := .invalidArgument e.toString

def ofAmount (e : AmountError) : ServiceError := .invalidArgument e.toString

def ofAccount (e : AccountError) : ServiceError := .invalidArgument e.toString

def ofEntry (e : EntryError) : ServiceError := .invalidArgument e.toString

def ofTransaction (e : TransactionError) : ServiceError := .invalidArgument e.toString

end ServiceError

def protoToAccountType (value : Int) : Except ServiceError AccountType :=
  if value = 1 then .ok .asset
  else if value = 2 then .ok .liability
  else if value = 3 then .ok .equity
  else if value = 4 then .ok .revenue
  else if value = 5 then .ok .expense
  else .error (.invalidArgument ("invalid account_type: " ++ toString value))

def protoToEntryType (value : Int) : Except ServiceError EntryType :=
  if value = 1 then .ok .debit
  else if value = 2 then .ok .credit
  else .error (.invalidArgument ("invalid entry_type: " ++ toString value))

def accountTypeToProto : AccountType → Int
  | .asset => 1
  | .liability => 2
  | .equity => 3
  | .revenue => 4
  | .expense => 5

def normalBalanceToProto : NormalBalance → Int
  | .debit => 1
  | .credit => 2

def entryTypeToProto : EntryType → Int
  | .debit => 1
  | .credit => 2

def entryStatusToProto : EntryStatus → Int
  | .pending => 1
  | .posted => 2
  | .voided => 3

def transactionStatusToProto : TransactionStatus → Int
  | .pending => 1
  | .posted => 2
  | .voided => 3
  | .failed => 4

def accountToProto (a : Account) : ProtoAccount where
  id := a.id.value
  accountType := accountTypeToProto a.accountType
  normalBalance := normalBalanceToProto a.normalBalance
  assetCode := a.assetCode
  assetScale := a.assetScale
  version := a.version
  createdAt := a.createdAt

def entryToProto (e : Entry) : ProtoEntry where
  id := e.id.value
  transactionId := e.transactionId.value
  accountId := e.accountId.value
  entryType := entryTypeToProto e.entryType
  amount := e.amount.value
  status := entryStatusToProto e.status
  createdAt := e.createdAt

def transactionToProto (t : Transaction) : ProtoTransaction where
  id := t.id.value
  idempotencyKey := t.idempotencyKey
  status := transactionStatusToProto t.status
  createdAt := t.createdAt
  postedAt := t.postedAt

def parseTransferLeg (leg : ProtoTransferLeg) : Except ServiceError TransferLeg :=
  match AccountId.new leg.accountId with
  | .error e => .error (.ofAccount e)
  | .ok accountId =>
      match protoToEntryType leg.entryType with
      | .error e => .error e
      | .ok entryType =>
          match Amount.new leg.amount with
          | .error e => .error (.ofAmount e)
          | .ok amount =>
              match TransferLeg.new accountId entryType amount with
              | .error e => .error (.ofTransferLeg e)
              | .ok leg => .ok leg

def parseTransferLegs : List ProtoTransferLeg → Except ServiceError (List TransferLeg)
  | [] => .ok []
  | leg :: rest => match parseTransferLeg leg with
      | .error e => .error e
      | .ok leg => match parseTransferLegs rest with
          | .error e => .error e
          | .ok legs => .ok (leg :: legs)

end Fides.Service
