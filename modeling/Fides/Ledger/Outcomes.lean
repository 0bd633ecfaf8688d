import Fides.Ledger.Conformance
import Fides.Ledger.Verdicts

/-! # How a settlement ends

A settlement that is served alone by a database that does not fail has one end, which is
what it means.  For a pending transaction only the ranges of the balances and of the
versions decide.
-/

namespace Fides.Ledger

open Domain Service Storage FixedWidth Relational Bookkeeping Concurrency

variable {cfg : Config server} {trace : List (Transition server)} {t : Tables} {id : Int}

/-- How the settlement of a transaction has to end, if every account of its entries must have
    room for the net delta of the entries. -/
structure Decided (t : Tables) (id : Int) (status : TransactionStatus) (attempted : String)
    (room : AccountRow → Int → Prop) (outcome : Except Failure Response) : Prop where
  succeeds : (∃ response, outcome = .ok response) ↔ ∃ row, t.transaction? id = some row ∧
    (row.status = transactionStatusToI16 status ∨
      row.status = transactionStatusToI16 .pending ∧ ∀ e ∈ t.entriesOf id, ∃ account,
        t.account? e.accountId = some account ∧
          room account (balance t.normal (t.lines id) e.accountId))
  missing : t.transaction? id = none → outcome = .error (.error (.transactionNotFound id))
  opposite : ∀ row other, t.transaction? id = some row →
    row.status = transactionStatusToI16 other → other ≠ .pending → other ≠ status →
      outcome = .error (.error (.invalidTransactionState id other attempted))
  full : ∀ row, t.transaction? id = some row → row.status = transactionStatusToI16 .pending →
    (¬ ∃ response, outcome = .ok response) →
      ∃ type, outcome = .error (.error (.ofStorage (.database (.outOfRange type))))
  failures : ∀ e, outcome = .error e → e = .error (.transactionNotFound id) ∨
    (∃ current, e = .error (.invalidTransactionState id current attempted)) ∨
      ∃ type, e = .error (.ofStorage (.database (.outOfRange type)))

section Deciding

variable {status current : TransactionStatus} {attempted : String}
  {room : AccountRow → Int → Prop} {outcome : Except Failure Response}

end Deciding

/-- The room may be said in other words, for the accounts there are. -/
private theorem Decided.congr {status : TransactionStatus} {attempted : String}
    {room room' : AccountRow → Int → Prop} {outcome : Except Failure Response}
    (same : ∀ account ∈ t.accounts, ∀ d, room account d ↔ room' account d)
    (decided : Decided t id status attempted room outcome) :
    Decided t id status attempted room' outcome where
  succeeds := by
    rw [decided.succeeds]
    refine exists_congr fun row => and_congr_right fun _ => or_congr_right (and_congr_right fun _ =>
      forall₂_congr fun e _ => exists_congr fun account => and_congr_right fun found => ?_)
    exact same account (mem_of_find found) _
  missing := decided.missing
  opposite := decided.opposite
  full := decided.full
  failures := decided.failures

end Fides.Ledger
