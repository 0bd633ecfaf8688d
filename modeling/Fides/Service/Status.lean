import Fides.Service.Ledger

/-! # What a client gets to see

A handler's error becomes a gRPC status.  The text of an internal error goes to the
log, the client gets a generic one.
-/

namespace Fides.Service

open Domain

/-- The status codes that the service uses. -/
inductive Code where
  | invalidArgument
  | notFound
  | alreadyExists
  | failedPrecondition
  | aborted
  | internal
  deriving DecidableEq, Repr

structure Status where
  code : Code
  message : String
  deriving DecidableEq, Repr

def ServiceError.toString : ServiceError → String
  | .accountNotFound accountId => "account " ++ ToString.toString accountId ++ " not found"
  | .transactionNotFound transactionId =>
      "transaction " ++ ToString.toString transactionId ++ " not found"
  | .insufficientFunds accountId available requested =>
      "insufficient funds on account " ++ ToString.toString accountId ++ ": available " ++
        ToString.toString available ++ ", requested " ++ ToString.toString requested
  | .invalidTransactionState transactionId current attempted =>
      "cannot " ++ attempted ++ " transaction " ++ ToString.toString transactionId ++
        ": current state " ++ current.debug
  | .duplicateTransaction idempotencyKey => "duplicate transaction with key " ++ idempotencyKey
  | .unbalancedTransaction totalDebits totalCredits =>
      "unbalanced transaction: debits " ++ ToString.toString totalDebits ++ " != credits " ++
        ToString.toString totalCredits
  | .invalidArgument message => "invalid argument: " ++ message
  | .versionConflict entity id =>
      "version conflict on " ++ entity ++ " " ++ ToString.toString id ++ ", retry"
  | .internal message => "internal error: " ++ message

def Status.ofServiceError (e : ServiceError) : Status :=
  match e with
  | .accountNotFound _ | .transactionNotFound _ => ⟨.notFound, e.toString⟩
  | .insufficientFunds .. => ⟨.failedPrecondition, e.toString⟩
  | .invalidTransactionState .. => ⟨.failedPrecondition, e.toString⟩
  | .duplicateTransaction _ => ⟨.alreadyExists, e.toString⟩
  | .unbalancedTransaction .. | .invalidArgument _ => ⟨.invalidArgument, e.toString⟩
  | .versionConflict .. => ⟨.aborted, e.toString⟩
  | .internal _ => ⟨.internal, "internal error"⟩

/-- How a call ends for the client: with a response or a status, or with neither if the
    handler panics. -/
def reply : Except Failure Response → Option (Except Status Response)
  | .ok response => some (.ok response)
  | .error (.error e) => some (.error (.ofServiceError e))
  | .error (.panic _) => none

end Fides.Service
